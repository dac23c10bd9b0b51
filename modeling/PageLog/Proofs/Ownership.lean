import Mathlib.Data.Nat.Init
import PageLog.Proofs.Restarts

/-!
# Who owns a page

A page that a free list knows is a node of the list or a free page.  Giving back a page that is
already one of them is refused, but the number that a new node gets is not looked at: it is the
next one behind those of the pages touched since the last start, and may be that of a free page.
This is the only way in which a page comes to be both, and then it can be handed out twice.

## Main definitions

* `FreeList.Separate` — no node is a free page, for the list and on the pages.
* `Depot.handsOut`, `Depot.gains` — the page that a list hands out, and the pages it gets.
* `Depot.Clashes` — a new node gets the number of a free page.
* `Depot.OneOwner` — in a whole run no page has two owners.

## Main results

* `Depot.Sound.turned` — what an operation or a restart does to one list.
* `one_owner_iff` — **pages have one owner just as long as no new node clashes**.
-/

namespace PageLog

/-! ### Nodes and free pages -/

/-- No node of the list is a free page, neither among those the list knows nor among those on the
pages. -/
structure FreeList.Separate (l : FreeList) (m : Memory) : Prop where
  /-- In the list itself. -/
  known : l.nodes.Disjoint l.free
  /-- On the pages. -/
  shown : ∃ nodes pages, (∃ m', Chain.nodes l.group l.head m = .ok nodes m') ∧
    (∃ m', Chain.pages l.group l.head m = .ok pages m') ∧ nodes.Disjoint pages

theorem FreeList.Kept.separate_iff {l : FreeList} {j : Journal} {h : FileHeader} {rs : List Record}
    {size : Nat} {L : Links} (hk : l.Kept j h rs size L) :
    l.Separate j.memory ↔ l.nodes.Disjoint l.free := by
  refine ⟨fun hsep => hsep.known, fun hdisjoint => ⟨hdisjoint, ?_⟩⟩
  obtain ⟨m₁, hnodes, -⟩ := Chain.nodes_ok hk.lies.on hk.sound.formats hk.lies.distinct
  obtain ⟨m₂, hpages, -⟩ := Chain.pages_ok hk.lies.on hk.sound.formats hk.lies.distinct
  rw [← hk.lies.head] at hnodes hpages
  exact ⟨L.ids, L.held, ⟨m₁, hnodes⟩, ⟨m₂, hpages⟩, fun id hid hheld =>
    hdisjoint (hk.lies.nodes.mem_iff.2 hid) (hk.lies.held hheld)⟩

/-- The page is a node of the list or one of its free pages. -/
def FreeList.Knows (l : FreeList) (id : PageId) : Prop := id ∈ l.nodes ∨ id ∈ l.free

namespace Depot

/-! ### Pages that come and go -/

/-- The page that list `i` hands out, if any. -/
def handsOut (d : Depot) (i : Nat) : Turn → Option PageId
  | .op (.take k) =>
      if k = i then
        match d.list? i with
        | none => none
        | some l =>
            match l.take d.journal with
            | .ok (page, _) _ => page
            | .error _ _ => none
      else none
  | _ => none

/-- The pages that list `i` gets: one that is given back, and perhaps a new node. -/
def gains (d : Depot) (i : Nat) : Turn → List PageId
  | .op (.put k page) =>
      if k = i then
        match d.list? i with
        | none => []
        | some l =>
            match l.put page d.journal with
            | .ok l' _ => page :: l'.nodes.filter (· ∉ l.nodes)
            | .error _ _ => []
      else []
  | _ => []

/-- List `i` gets a new node, and its number is that of the page which is given back or of a page
that is free already. -/
def Clashes (d : Depot) (i : Nat) : Turn → Prop
  | .op (.put k page) => k = i ∧ ∃ l node, d.list? i = some l ∧
      l.LinksTo d.journal.memory page node ∧ (node = page ∨ node ∈ l.free)
  | _ => False

/-- List `i` hands out the page `taken` and gets the pages `gained`, and it clashes if `clash`
says so. -/
structure Does (d : Depot) (i : Nat) (t : Turn) (taken : Option PageId) (gained : List PageId)
    (clash : Prop) : Prop where
  /-- The page that is handed out. -/
  handsOut : d.handsOut i t = taken
  /-- The pages that are gained. -/
  gains : d.gains i t = gained
  /-- The clash. -/
  clashes : d.Clashes i t ↔ clash

/-- What becomes of the list `l` in place `i`. -/
inductive Turned (d : Depot) (i : Nat) (t : Turn) (l : FreeList) : FreeList → Prop
  /-- It is left alone, or found again. -/
  | stays {l' : FreeList} (does : d.Does i t none [] False) (agrees : l.Agrees l') :
      d.Turned i t l l'
  /-- A page is given back. -/
  | fills (page : PageId) (does : d.Does i t none [page] False) (accepts : l.Accepts page) :
      d.Turned i t l { l with free := l.free.insert page }
  /-- A page is given back, in a new node. -/
  | links (page node : PageId)
      (does : d.Does i t none [page, node] (node = page ∨ node ∈ l.free))
      (accepts : l.Accepts page) (fresh : node ∉ l.nodes) : d.Turned i t l (l.linked node page)
  /-- A page is taken. -/
  | takesPage (page : PageId) (does : d.Does i t (some page) [] False) (free : page ∈ l.free) :
      d.Turned i t l { l with free := l.free.erase page }
  /-- The last node is taken. -/
  | takesNode (node before : PageId) (does : d.Does i t (some node) [] False)
      (known : node ∈ l.nodes) :
      d.Turned i t l { l with tail := before, nodes := l.nodes.erase node }

section Turned

variable {d : Depot} {i : Nat} {t : Turn} {l l' : FreeList} {id : PageId}

/-- Where no node is a free page, one becomes one just by a clash. -/
theorem Turned.disjoint_iff (ht : d.Turned i t l l') (hl : l.nodes.Disjoint l.free) :
    l'.nodes.Disjoint l'.free ↔ ¬d.Clashes i t := by
  cases ht with
  | stays does agrees =>
    refine iff_of_true (fun id hid hfree => ?_) does.clashes.1
    exact hl (agrees.nodes.mem_iff.1 hid) (agrees.free hfree)
  | fills page does accepts =>
    refine iff_of_true (fun id hid hfree => ?_) does.clashes.1
    obtain rfl | hknown := List.mem_insert_iff.1 hfree
    · exact accepts.nodes hid
    · exact hl hid hknown
  | links page node does accepts fresh =>
    rw [does.clashes, not_or]
    refine ⟨fun hdisjoint => ⟨?_, fun hfree => ?_⟩, fun ⟨hne, hnode⟩ id hid hfree => ?_⟩
    · rintro rfl
      exact hdisjoint List.mem_insert_self List.mem_insert_self
    · exact hdisjoint List.mem_insert_self (List.mem_insert_of_mem hfree)
    · obtain rfl | hold := List.mem_insert_iff.1 hid
      · exact (List.mem_insert_iff.1 hfree).elim hne hnode
      · obtain rfl | hknown := List.mem_insert_iff.1 hfree
        · exact accepts.nodes hold
        · exact hl hold hknown
  | takesPage page does free =>
    exact iff_of_true (fun id hid hfree => hl hid (List.mem_of_mem_erase hfree)) does.clashes.1
  | takesNode node before does known =>
    exact iff_of_true (fun id hid hfree => hl (List.mem_of_mem_erase hid) hfree) does.clashes.1

/-- The list gets to know only the pages that it gains. -/
theorem Turned.knows (ht : d.Turned i t l l') (hid : l'.Knows id) :
    l.Knows id ∨ id ∈ d.gains i t := by
  cases ht with
  | stays does agrees => exact .inl (hid.imp agrees.nodes.mem_iff.1 fun hfree => agrees.free hfree)
  | fills page does accepts =>
    rw [does.gains]
    obtain hid | hid := hid
    · exact .inl (.inl hid)
    · obtain rfl | hid := List.mem_insert_iff.1 hid
      · exact .inr List.mem_cons_self
      · exact .inl (.inr hid)
  | links page node does accepts fresh =>
    rw [does.gains]
    obtain hid | hid := hid
    · obtain rfl | hid := List.mem_insert_iff.1 hid
      · exact .inr (List.mem_cons_of_mem _ List.mem_cons_self)
      · exact .inl (.inl hid)
    · obtain rfl | hid := List.mem_insert_iff.1 hid
      · exact .inr List.mem_cons_self
      · exact .inl (.inr hid)
  | takesPage page does free => exact .inl (hid.imp_right List.mem_of_mem_erase)
  | takesNode node before does known => exact .inl (hid.imp_left List.mem_of_mem_erase)

/-- The list hands out a page that it knows. -/
theorem Turned.knows_of_handsOut (ht : d.Turned i t l l') (hid : d.handsOut i t = some id) :
    l.Knows id := by
  cases ht with
  | stays does => rw [does.handsOut] at hid; cases hid
  | fills page does => rw [does.handsOut] at hid; cases hid
  | links page node does => rw [does.handsOut] at hid; cases hid
  | takesPage page does free =>
    rw [does.handsOut] at hid
    exact .inr (Option.some.inj hid ▸ free)
  | takesNode node before does known =>
    rw [does.handsOut] at hid
    exact .inl (Option.some.inj hid ▸ known)

/-- Where no node is a free page, the list forgets the page that it hands out. -/
theorem Turned.forgets (ht : d.Turned i t l l') (hl : l.nodes.Disjoint l.free)
    (hnodes : l.nodes.Nodup) (hfree : l.free.Nodup) (hid : d.handsOut i t = some id) :
    ¬l'.Knows id := by
  cases ht with
  | stays does => rw [does.handsOut] at hid; cases hid
  | fills page does => rw [does.handsOut] at hid; cases hid
  | links page node does => rw [does.handsOut] at hid; cases hid
  | takesPage page does free =>
    rw [does.handsOut] at hid
    obtain rfl := Option.some.inj hid
    rintro (hmem | hmem)
    · exact hl hmem free
    · exact hfree.not_mem_erase hmem
  | takesNode node before does known =>
    rw [does.handsOut] at hid
    obtain rfl := Option.some.inj hid
    rintro (hmem | hmem)
    · exact hnodes.not_mem_erase hmem
    · exact hl known hmem

end Turned

/-! ### What becomes of a list -/

/-- What becomes of place `i` in the depot. -/
inductive Became (d : Depot) (i : Nat) (t : Turn) (d' : Depot) : Prop
  /-- The list there goes on. -/
  | goesOn {l l' : FreeList} (before : d.list? i = some l) (after : d'.list? i = some l')
      (turned : d.Turned i t l l')
  /-- No list is there. -/
  | gone (after : d'.list? i = none) (does : d.Does i t none [] False)
  /-- A list without free pages is begun there. -/
  | begins {l' : FreeList} (outside : d.lists.length ≤ i) (after : d'.list? i = some l')
      (free : l'.free = []) (does : d.Does i t none [] False)

theorem does_nothing_of_none {d : Depot} {i : Nat} {t : Turn} (hi : d.list? i = none) :
    d.Does i t none [] False := by
  refine ⟨?_, ?_, ?_⟩
  · unfold handsOut
    split <;> simp [hi]
  · unfold gains
    split <;> simp [hi]
  · unfold Clashes
    split <;> simp [hi]

theorem does_nothing_of_put {d : Depot} {i k : Nat} {page : PageId} (hk : k ≠ i) :
    d.Does i (.op (.put k page)) none [] False :=
  ⟨rfl, by simp only [gains, if_neg hk], by simp only [Clashes, hk, false_and]⟩

theorem does_nothing_of_take {d : Depot} {i k : Nat} (hk : k ≠ i) :
    d.Does i (.op (.take k)) none [] False :=
  ⟨by simp only [handsOut, if_neg hk], rfl, Iff.rfl⟩

section Sound

variable {d : Depot} {h : FileHeader} {groups : List (GroupId × Nat)} {rs : List Record} {i : Nat}
  {l : FreeList}

theorem Turned.refl {t : Turn} (does : d.Does i t none [] False) : d.Turned i t l l :=
  .stays does ⟨rfl, .refl _, List.Subset.refl _⟩

/-- Giving back a page to the list. -/
theorem Sound.put_turned (hd : d.Sound h groups rs) (hi : d.list? i = some l) (page : PageId) :
    ∃ l' j, d.after (.put i page) = ⟨j, d.lists.set i (some l')⟩ ∧
      d.Turned i (.op (.put i page)) l l' := by
  obtain ⟨size, L, hk⟩ := hd.kept i l hi
  obtain ⟨e, m, hput, -, hnone⟩ | ⟨L', c, j', hput, -, haccepts, hnone⟩ |
    ⟨node, L', c, c', j', hput, -, hlinks⟩ := FreeList.put_cases hk page
  · -- refused: the list stays, and no node is taken
    refine ⟨l, { d.journal with memory := m }, ?_, .refl ⟨rfl, ?_, ?_⟩⟩
    · simp only [Depot.after, hi, hput, set_list? hi]
    · simp only [gains, hi, hput, if_true]
    · simp only [Clashes, hi, iff_false, not_and, not_exists]
      rintro - l' node ⟨⟩ hlinks
      exact absurd hlinks (hnone node)
  · -- the page goes into a node that there was
    refine ⟨_, j', ?_, .fills page ⟨rfl, ?_, ?_⟩ haccepts⟩
    · simp only [Depot.after, hi, hput]
    · simp [gains, hi, hput]
    · simp only [Clashes, hi, iff_false, not_and, not_exists]
      rintro - l' node ⟨⟩ hlinks
      exact absurd hlinks (hnone node)
  · -- the nodes are in use, and the new one was not
    have hfresh : node ∉ l.nodes := by
      obtain ⟨m, hallocate⟩ := Memory.allocate_of_nextId hlinks.next
      obtain ⟨-, -, -, hnew, -⟩ := Memory.allocate_ok hallocate
      exact fun hmem => hnew (hk.issued node (hk.lies.nodes.mem_iff.1 hmem))
    refine ⟨_, j', ?_, .links page node ⟨rfl, ?_, ?_⟩ hlinks.accepts hfresh⟩
    · simp only [Depot.after, hi, hput]
    · simp only [gains, hi, hput, if_true, FreeList.linked, List.insert_of_not_mem hfresh]
      simp [hfresh]
    · simp only [Clashes, hi, true_and]
      constructor
      · rintro ⟨l', node', ⟨⟩, hlinks', hclash⟩
        have hsame := hlinks'.next
        rw [hlinks.next] at hsame
        cases hsame
        exact hclash
      · exact fun hclash => ⟨l, node, rfl, hlinks, hclash⟩

/-- Taking a page from the list. -/
theorem Sound.take_turned (hd : d.Sound h groups rs) (hi : d.list? i = some l) :
    ∃ l' j, d.after (.take i) = ⟨j, d.lists.set i (some l')⟩ ∧
      d.Turned i (.op (.take i)) l l' := by
  obtain ⟨size, L, hk⟩ := hd.kept i l hi
  obtain ⟨m, htake, -⟩ | ⟨data, L', c, j', htake, -, hdata⟩ |
    ⟨t, p, L', c, j', htake, -, ht⟩ := FreeList.take_cases hk
  · refine ⟨l, { d.journal with memory := m }, ?_, .refl ⟨?_, rfl, Iff.rfl⟩⟩
    · simp only [Depot.after, hi, htake]
    · simp only [handsOut, hi, htake, if_true]
  · refine ⟨_, j', ?_, .takesPage data ⟨?_, rfl, Iff.rfl⟩ hdata⟩
    · simp only [Depot.after, hi, htake]
    · simp only [handsOut, hi, htake, if_true]
  · refine ⟨_, j', ?_, .takesNode t p ⟨?_, rfl, Iff.rfl⟩ ht⟩
    · simp only [Depot.after, hi, htake]
    · simp only [handsOut, hi, htake, if_true]

theorem became_of_same {d' : Depot} {t : Turn} (hsame : d'.list? i = d.list? i)
    (does : d.Does i t none [] False) : d.Became i t d' := by
  cases hi : d.list? i with
  | none => exact .gone (hsame.trans hi) does
  | some l => exact .goesOn hi (hsame.trans hi) (.refl does)

/-- There is no list in the place `k` that is asked for. -/
theorem became_of_none {t : Turn} {k : Nat} (hk : d.list? k = none)
    (hother : k ≠ i → d.Does i t none [] False) : d.Became i t d := by
  refine became_of_same rfl ?_
  by_cases hki : k = i
  · exact does_nothing_of_none (hki ▸ hk)
  · exact hother hki

/-- Only the list in place `k` changes. -/
theorem became_of_set {t : Turn} {k : Nat} {l' : FreeList} {j : Journal} (hk : d.list? k = some l)
    (hturned : d.Turned k t l l') (hother : k ≠ i → d.Does i t none [] False) :
    d.Became i t ⟨j, d.lists.set k (some l')⟩ := by
  by_cases hki : k = i
  · subst hki
    exact .goesOn hk ((list?_set d j hk k).trans (if_pos rfl)) hturned
  · exact became_of_same ((list?_set d j hk i).trans (if_neg (Ne.symm hki))) (hother hki)

/-- What an operation or a restart does to one list. -/
theorem Sound.turned (hd : d.Sound h groups rs) (hn : h.Numbers rs.length) (t : Turn) (i : Nat) :
    d.Became i t (d.turn h.salt groups t) := by
  match t with
  | .op (.create g) =>
    have does : d.Does i (.op (.create g)) none [] False := ⟨rfl, rfl, Iff.rfl⟩
    simp only [Depot.turn, Depot.after]
    cases hnext : d.journal.memory.nextId g with
    | none =>
      obtain ⟨e, hcreate⟩ := FreeList.create_exhausted hnext
      rw [hcreate]
      exact became_of_same rfl does
    | some head =>
      obtain ⟨size, j', c, hcreate, -⟩ := FreeList.create_ok hd.memory hd.recorded.log hnext
      rw [hcreate]
      have hlists := list?_append d j' ⟨g, head, head, [head], []⟩ i
      split at hlists
      · rename_i hi
        exact .begins (Nat.le_of_eq hi.symm) hlists rfl does
      · exact became_of_same hlists does
  | .op (.put k page) =>
    -- an operation on another list does nothing to this one
    have hother : k ≠ i → d.Does i (.op (.put k page)) none [] False := does_nothing_of_put
    cases hk : d.list? k with
    | none =>
      simp only [Depot.turn, Depot.after, hk]
      exact became_of_none hk hother
    | some l =>
      obtain ⟨l', j, hafter, hturned⟩ := hd.put_turned hk page
      rw [Depot.turn, hafter]
      exact became_of_set hk hturned hother
  | .op (.take k) =>
    have hother : k ≠ i → d.Does i (.op (.take k)) none [] False := does_nothing_of_take
    cases hk : d.list? k with
    | none =>
      simp only [Depot.turn, Depot.after, hk]
      exact became_of_none hk hother
    | some l =>
      obtain ⟨l', j, hafter, hturned⟩ := hd.take_turned hk
      rw [Depot.turn, hafter]
      exact became_of_set hk hturned hother
  | .restart start mode =>
    have does : d.Does i (.restart start mode) none [] False := ⟨rfl, rfl, Iff.rfl⟩
    -- a restart finds lists again, or loses them, and changes none
    obtain ⟨-, -, hback⟩ := hd.restart ⟨h.salt, start, mode⟩ hn rfl
    cases hi : (d.restart ⟨h.salt, start, mode⟩ groups).list? i with
    | none => exact .gone hi does
    | some l' =>
      obtain ⟨l, hl, hagrees⟩ := hback i l' hi
      exact .goesOn hl hi (.stays does hagrees)

end Sound

/-! ### Whole runs -/

/-- No node of a list is one of its free pages. -/
def Tidy (d : Depot) : Prop := ∀ i l, d.list? i = some l → l.nodes.Disjoint l.free

/-- In a run no node of a list is ever one of its free pages, and a list that hands out a page for
the second time has gained it in between. -/
structure OneOwner (d : Depot) (salt : UInt64) (groups : List (GroupId × Nat)) (ts : List Turn) :
    Prop where
  /-- Nodes are no free pages. -/
  separate : ∀ k i l, (d.turns salt groups (ts.take k)).list? i = some l →
    l.Separate (d.turns salt groups (ts.take k)).journal.memory
  /-- Pages are handed out once. -/
  once : ∀ k k' i id t t', k < k' → ts[k]? = some t → ts[k']? = some t' →
    (d.turns salt groups (ts.take k)).handsOut i t = some id →
    (d.turns salt groups (ts.take k')).handsOut i t' = some id →
    ∃ n u, k < n ∧ n < k' ∧ ts[n]? = some u ∧ id ∈ (d.turns salt groups (ts.take n)).gains i u

section Run

variable {d : Depot} {h : FileHeader} {groups : List (GroupId × Nat)} {rs : List Record}
  {i : Nat} {id : PageId}

/-- Lists stay tidy just as long as no new node clashes. -/
theorem Sound.tidy_turn (hd : d.Sound h groups rs) (hn : h.Numbers rs.length) (htidy : d.Tidy)
    (t : Turn) : (d.turn h.salt groups t).Tidy ↔ ∀ i, ¬d.Clashes i t := by
  constructor
  · intro htidy' i
    cases hd.turned hn t i with
    | goesOn before after turned =>
      exact (turned.disjoint_iff (htidy i _ before)).1 (htidy' i _ after)
    | gone after does => exact does.clashes.1
    | begins outside after free does => exact does.clashes.1
  · intro hclash i l' hi
    cases hd.turned hn t i with
    | goesOn before after turned =>
      rw [after] at hi
      cases hi
      exact (turned.disjoint_iff (htidy i _ before)).2 (hclash i)
    | gone after does =>
      rw [after] at hi
      cases hi
    | begins outside after free does =>
      rw [after] at hi
      cases hi
      rw [free]
      exact List.disjoint_nil_right _

/-- A list that does not know a page does not get to know it unless it gains it. -/
theorem Became.unknown {t : Turn} {d' : Depot} (hb : d.Became i t d') (hi : i < d.lists.length)
    (hid : ∀ l, d.list? i = some l → ¬l.Knows id) (hgains : id ∉ d.gains i t) :
    ∀ l, d'.list? i = some l → ¬l.Knows id := by
  intro l' hl' hknows
  cases hb with
  | goesOn before after turned =>
    rw [after] at hl'
    cases hl'
    exact (turned.knows hknows).elim (hid _ before) hgains
  | gone after does =>
    rw [after] at hl'
    cases hl'
  | begins outside after free does => omega

/-- A list that hands out a page forgets it, while no node is a free page. -/
theorem Sound.forgets (hd : d.Sound h groups rs) (hn : h.Numbers rs.length) (htidy : d.Tidy)
    {t : Turn} (hid : d.handsOut i t = some id) :
    i < d.lists.length ∧
      ∀ l, (d.turn h.salt groups t).list? i = some l → ¬l.Knows id := by
  cases hd.turned hn t i with
  | goesOn before after turned =>
    obtain ⟨size, L, hk⟩ := hd.kept i _ before
    refine ⟨(List.getElem?_eq_some_iff.1 (getElem?_of_list? before)).1, fun l hl => ?_⟩
    rw [after] at hl
    cases hl
    exact turned.forgets (htidy i _ before) (hk.lies.nodes.nodup_iff.2 hk.lies.distinct)
      hk.lies.known hid
  | gone after does =>
    rw [does.handsOut] at hid
    cases hid
  | begins outside after free does =>
    rw [does.handsOut] at hid
    cases hid

/-- A list knows the page that it hands out. -/
theorem Sound.knows_of_handsOut (hd : d.Sound h groups rs) (hn : h.Numbers rs.length) {t : Turn}
    (hid : d.handsOut i t = some id) : ∃ l, d.list? i = some l ∧ l.Knows id := by
  cases hd.turned hn t i with
  | goesOn before after turned => exact ⟨_, before, turned.knows_of_handsOut hid⟩
  | gone after does =>
    rw [does.handsOut] at hid
    cases hid
  | begins outside after free does =>
    rw [does.handsOut] at hid
    cases hid

section Turns

variable {ts : List Turn}

theorem Sound.turns_take (hd : d.Sound h groups rs)
    (hlsn : h.startLsn.toNat + (rs.length + 2 * ts.length) ≤ 2 ^ 64) (k : Nat) :
    ∃ rs', (d.turns h.salt groups (ts.take k)).Sound h groups rs' ∧ h.Numbers rs'.length := by
  have hk : (ts.take k).length ≤ ts.length := (List.take_sublist k ts).length_le
  obtain ⟨rs', hrs', hd'⟩ := hd.turns (ts.take k) (by omega)
  exact ⟨rs', hd', FileHeader.numbers_of_le (by omega)⟩

/-- Through a whole run lists are tidy just as long as no new node clashes. -/
theorem Sound.tidy_iff (hd : d.Sound h groups rs) (htidy : d.Tidy)
    (hlsn : h.startLsn.toNat + (rs.length + 2 * ts.length) ≤ 2 ^ 64) :
    (∀ k, (d.turns h.salt groups (ts.take k)).Tidy) ↔
      ∀ k i t, ts[k]? = some t → ¬(d.turns h.salt groups (ts.take k)).Clashes i t := by
  constructor
  · intro hall k i t ht
    obtain ⟨rs', hd', hn⟩ := hd.turns_take hlsn k
    have hnext := hall (k + 1)
    rw [turns_take_succ ht] at hnext
    exact (hd'.tidy_turn hn (hall k) t).1 hnext i
  · intro hclash k
    induction k with
    | zero => exact htidy
    | succ k ih =>
      obtain ⟨rs', hd', hn⟩ := hd.turns_take hlsn k
      cases ht : ts[k]? with
      | none =>
        have hend : ts.length ≤ k := List.getElem?_eq_none_iff.1 ht
        rw [List.take_of_length_le hend] at ih
        rwa [List.take_of_length_le (by omega)]
      | some t =>
        rw [turns_take_succ ht]
        exact (hd'.tidy_turn hn ih t).2 fun i => hclash k i t ht

/-- In a tidy run a page that a list has handed out stays unknown to it until it is gained. -/
theorem Sound.unknown (hd : d.Sound h groups rs)
    (hlsn : h.startLsn.toNat + (rs.length + 2 * ts.length) ≤ 2 ^ 64)
    (hall : ∀ k, (d.turns h.salt groups (ts.take k)).Tidy) {k k' : Nat} {t : Turn} (hk : k < k')
    (hk' : k' ≤ ts.length) (ht : ts[k]? = some t)
    (hid : (d.turns h.salt groups (ts.take k)).handsOut i t = some id)
    (hgains : ∀ n u, k < n → n < k' → ts[n]? = some u →
      id ∉ (d.turns h.salt groups (ts.take n)).gains i u) :
    i < (d.turns h.salt groups (ts.take k')).lists.length ∧
      ∀ l, (d.turns h.salt groups (ts.take k')).list? i = some l → ¬l.Knows id := by
  -- from one state to the next, beginning behind the first time
  induction k', hk using Nat.le_induction with
  | base =>
    obtain ⟨rs', hd', hn⟩ := hd.turns_take hlsn k
    obtain ⟨hlt, hforgets⟩ := hd'.forgets hn (hall k) hid
    rw [turns_take_succ ht]
    exact ⟨Nat.lt_of_lt_of_le hlt (length_le_turn ..), hforgets⟩
  | succ n hn ih =>
    obtain ⟨hlt, hunknown⟩ := ih (by omega) fun m u hkm hmn => hgains m u hkm (by omega)
    obtain ⟨rs', hd', hn'⟩ := hd.turns_take hlsn n
    have hu : ts[n]? = some ts[n] := List.getElem?_eq_getElem (by omega)
    rw [turns_take_succ hu]
    refine ⟨Nat.lt_of_lt_of_le hlt (length_le_turn ..), ?_⟩
    exact (hd'.turned hn' _ i).unknown hlt hunknown (hgains n _ (by omega) (by omega) hu)

/-- In a whole run pages have one owner just as long as no new node clashes. -/
theorem Sound.oneOwner_iff (hd : d.Sound h groups rs) (htidy : d.Tidy)
    (hlsn : h.startLsn.toNat + (rs.length + 2 * ts.length) ≤ 2 ^ 64) :
    d.OneOwner h.salt groups ts ↔
      ∀ k i t, ts[k]? = some t → ¬(d.turns h.salt groups (ts.take k)).Clashes i t := by
  rw [← hd.tidy_iff htidy hlsn]
  refine ⟨fun howner k i l hi => (howner.separate k i l hi).known, fun hall => ⟨?_, ?_⟩⟩
  · intro k i l hi
    obtain ⟨rs', hd', -⟩ := hd.turns_take hlsn k
    obtain ⟨size, L, hk⟩ := hd'.kept i l hi
    exact hk.separate_iff.2 (hall k i l hi)
  · intro k k' i id t t' hk ht ht' hid hid'
    by_contra hnone
    have hk' : k' < ts.length := (List.getElem?_eq_some_iff.1 ht').1
    -- otherwise the list would hand out a page that it does not know
    obtain ⟨-, hunknown⟩ := hd.unknown hlsn hall hk (Nat.le_of_lt hk') ht hid
      fun n u hkn hnk hu hmem => hnone ⟨n, u, hkn, hnk, hu, hmem⟩
    obtain ⟨rs', hd', hn⟩ := hd.turns_take hlsn k'
    obtain ⟨l, hl, hknows⟩ := hd'.knows_of_handsOut hn hid'
    exact hunknown l hl hknows

end Turns

end Run

end Depot

/-- **Pages have one owner just as long as no new node clashes.**  Lists are begun over a new log
and untouched pages and used in any way, with restarts in between; pages that are given back may be
any.  Then no node is ever a free page of its list, and no page is handed out twice without being
gained in between, if and only if no new node ever gets the number of a page that is free in its
list or just given back. -/
theorem one_owner_iff {disk : Disk} {options : LogOptions} {groups : List (GroupId × Nat)}
    {switches : Switches} {d : Depot} (hcalm : disk.Calm) (hnew : disk.file.len < FileHeader.size)
    (hopen : Depot.opened options disk groups switches = some d) (ts : List Turn)
    (hlsn : options.startLsn.toNat + 2 * ts.length ≤ 2 ^ 64) :
    d.OneOwner options.salt groups ts ↔
      ∀ k i t, ts[k]? = some t → ¬(d.turns options.salt groups (ts.take k)).Clashes i t := by
  obtain ⟨d', hopen', hlists, hd⟩ := Depot.opened_ok options hcalm hnew groups switches
  rw [hopen] at hopen'
  cases hopen'
  refine hd.oneOwner_iff (fun i l hi => ?_) (by rwa [List.length_nil, Nat.zero_add])
  rw [Depot.list?, hlists] at hi
  cases hi

/-- On pages of three slots a list gets a second node, hands it out, gets a third one, and is found
again after a restart. -/
theorem one_owner_iff_of_third_node :
    ∃ d, Depot.opened ⟨7, 1, .immediate⟩ (Disk.ofFile .inMemory) [(1, 64)] .empty = some d ∧
      d.OneOwner 7 [(1, 64)] [.op (.create 1), .op (.put 0 20), .op (.put 0 30), .op (.put 0 40),
        .op (.put 0 50), .op (.take 0), .op (.take 0), .op (.put 0 50), .restart 5 .off,
        .op (.take 0)] := by
  have hcalm : (Disk.ofFile .inMemory).Calm := fun _ _ => rfl
  have hnew : (Disk.ofFile .inMemory).file.len < FileHeader.size := by decide
  obtain ⟨d, hopen, -⟩ := Depot.opened_ok ⟨7, 1, .immediate⟩ hcalm hnew [(1, 64)] .empty
  refine ⟨d, hopen, (one_owner_iff hcalm hnew hopen _ (by decide)).2 ?_⟩
  -- the next number for a node is never that of a free page, nor one of those given back
  have hnext : ∀ d ∈ Depot.opened ⟨7, 1, .immediate⟩ (Disk.ofFile .inMemory) [(1, 64)] .empty,
      ∀ k < 8, ∀ l ∈ (d.turns 7 [(1, 64)] (List.take k [.op (.create 1), .op (.put 0 20),
        .op (.put 0 30), .op (.put 0 40), .op (.put 0 50), .op (.take 0), .op (.take 0),
        .op (.put 0 50), .restart 5 .off, .op (.take 0)])).list? 0,
      ((d.turns 7 [(1, 64)] (List.take k [.op (.create 1), .op (.put 0 20), .op (.put 0 30),
        .op (.put 0 40), .op (.put 0 50), .op (.take 0), .op (.take 0), .op (.put 0 50),
        .restart 5 .off, .op (.take 0)])).journal.memory.nextId l.group).all
        (fun node => node ∉ l.free ∧ node ∉ [20, 30, 40, 50]) = true := by
    decide +kernel
  intro k i t ht hclash
  have hk : k < 10 := (List.getElem?_eq_some_iff.1 ht).1
  have hmem := List.mem_of_getElem? ht
  match t with
  | .op (.create g) => exact hclash
  | .op (.take n) => exact hclash
  | .restart start mode => exact hclash
  | .op (.put n page) =>
    have hk : k < 8 := by
      by_contra hlate
      obtain rfl | rfl : k = 8 ∨ k = 9 := by omega
      · cases ht
      · cases ht
    simp only [List.mem_cons, List.not_mem_nil, Turn.op.injEq, ListOp.put.injEq, reduceCtorEq,
      or_false, false_or] at hmem
    obtain ⟨rfl, l, node, hl, hlinks, hclash⟩ := hclash
    obtain rfl : n = 0 := by omega
    have hnode := hnext d hopen k hk l hl
    rw [hlinks.next, Option.all_some, decide_eq_true_eq] at hnode
    obtain ⟨hfree, hpage⟩ := hnode
    obtain rfl | hnode := hclash
    · exact hpage (by grind)
    · exact hfree hnode

/-- Page 2 is given back before it was ever a node, and then the next new node gets its number.  The
list has it as a node and as a free page, and hands it out as both. -/
theorem free_page_becomes_node :
    ∃ d, Depot.opened ⟨7, 1, .immediate⟩ (Disk.ofFile .inMemory) [(1, 64)] .empty = some d ∧
      let ts : List Turn := [.op (.create 1), .op (.put 0 2), .op (.put 0 100), .op (.put 0 101),
        .op (.put 0 102), .op (.take 0), .op (.take 0), .op (.take 0), .op (.take 0), .op (.take 0)]
      let state k := d.turns 7 [(1, 64)] (ts.take k)
      (state 5).list? 0 = some ⟨1, 1, 2, [2, 1], [102, 101, 100, 2]⟩ ∧
        (state 6).handsOut 0 (.op (.take 0)) = some 2 ∧
        (state 9).handsOut 0 (.op (.take 0)) = some 2 ∧ ¬d.OneOwner 7 [(1, 64)] ts := by
  have hcalm : (Disk.ofFile .inMemory).Calm := fun _ _ => rfl
  have hnew : (Disk.ofFile .inMemory).file.len < FileHeader.size := by decide
  obtain ⟨d, hopen, -⟩ := Depot.opened_ok ⟨7, 1, .immediate⟩ hcalm hnew [(1, 64)] .empty
  have hlist : ∀ d ∈ Depot.opened ⟨7, 1, .immediate⟩ (Disk.ofFile .inMemory) [(1, 64)] .empty,
      (d.turns 7 [(1, 64)] [.op (.create 1), .op (.put 0 2), .op (.put 0 100), .op (.put 0 101),
        .op (.put 0 102)]).list? 0 = some ⟨1, 1, 2, [2, 1], [102, 101, 100, 2]⟩ := by
    decide +kernel
  have hnode : ∀ d ∈ Depot.opened ⟨7, 1, .immediate⟩ (Disk.ofFile .inMemory) [(1, 64)] .empty,
      (d.turns 7 [(1, 64)] [.op (.create 1), .op (.put 0 2), .op (.put 0 100), .op (.put 0 101),
        .op (.put 0 102), .op (.take 0)]).handsOut 0 (.op (.take 0)) = some 2 := by
    decide +kernel
  have hslot : ∀ d ∈ Depot.opened ⟨7, 1, .immediate⟩ (Disk.ofFile .inMemory) [(1, 64)] .empty,
      (d.turns 7 [(1, 64)] [.op (.create 1), .op (.put 0 2), .op (.put 0 100), .op (.put 0 101),
        .op (.put 0 102), .op (.take 0), .op (.take 0), .op (.take 0), .op (.take 0)]).handsOut 0
        (.op (.take 0)) = some 2 := by
    decide +kernel
  refine ⟨d, hopen, hlist d hopen, hnode d hopen, hslot d hopen, fun howner => ?_⟩
  exact (howner.separate 5 0 _ (hlist d hopen)).known (a := 2) (by decide) (by decide)

end PageLog
