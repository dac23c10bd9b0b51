import PageLog.Proofs.PageWords

/-!
# Reading the records of a page again

The changes that a page went through are carried out once more, though the page has some of them
already.  The page that they are carried out on lies between two others: the page as it was when the
change was made, and the page that it is meant to become again.  Every word of it is a word of one
of these, and so is, up to its count, every slot.  This goes on until a change is refused, and a
change is refused in two cases only: a slot is to be filled with a gap in front of it, or a slot is
to be emptied that holds the page number but is not the last.  Since the page on the way is never
higher or lower than both of the others, neither comes up while slots are only filled or only
emptied.

## Main definitions

* `PageChange.AtTop` — a change as giving back and taking pages make it.
* `Node.Overlaid` — a page on the way, between the page before and the page behind.
* `Node.Led` — a page went through certain changes.
* `PageDelta.Stops` — a change is refused in one of the two cases.
* `redo`, `Halts` — changes of one page, carried out one after the other.

## Main results

* `Node.Overlaid.step` — one change.
* `Node.Overlaid.mixed` — what it takes for a change to be refused.
* `Node.Led.reread` — all changes, from any of the pages on the way.
-/

namespace PageLog

namespace Node

/-! ### Between two pages -/

/-- The page `R`, on which changes are carried out again, when the page was `S` at first and was `T`
in the end. -/
structure Overlaid (S R T : Bytes) : Prop where
  before : Alike T S
  again : Alike T R
  words : ∀ q, q ≠ 4 → word R q = word S q ∨ word R q = word T q
  low : min (height S) (height T) ≤ height R
  high : height R ≤ max (height S) (height T)
  above : ∀ i, height R ≤ i → i < height S → word R (5 + i) = word T (5 + i)
  below : ∀ i, height T ≤ i → i < height S → i < height R → word R (5 + i) = word S (5 + i)

namespace Overlaid

variable {S S' R R' T : Bytes} {q n n' i : Nat} {v : UInt64} {data : PageId}

theorem start (h : Alike T S) : Overlaid S T T := by
  refine ⟨h, .refl T, fun _ _ => .inr rfl, Nat.min_le_right .., Nat.le_max_right ..,
    fun _ _ _ => rfl, ?_⟩
  intro i hi _ hlt
  omega

/-- In the end nothing of the pages on the way is left. -/
theorem agree (h : Overlaid T R T) (hlarge : minPageSize ≤ T.length) : R = T := by
  have hlow := h.low
  have hhigh := h.high
  rw [Nat.min_self] at hlow
  rw [Nat.max_self] at hhigh
  refine h.again.eq_of_words hlarge (Nat.le_antisymm hhigh hlow) fun q hq => ?_
  rcases h.words q hq with hword | hword
  · exact hword
  · exact hword

theorem words_both (h : Overlaid S R T) (hS : Wrote S q v n S') (hR : Wrote R q v n' R') :
    ∀ q', q' ≠ 4 → word R' q' = word S' q' ∨ word R' q' = word T q' := by
  intro q' hq'
  by_cases hq : q' = q
  · subst hq
    exact .inl (hR.there.trans hS.there.symm)
  · rw [hR.elsewhere q' hq hq', hS.elsewhere q' hq hq']
    exact h.words q' hq'

/-- The node behind is set on both pages. -/
theorem setNext (h : Overlaid S R T) (hS : Wrote S 3 v (height S) S')
    (hR : Wrote R 3 v (height R) R') : Overlaid S' R' T := by
  refine ⟨h.before.trans hS.alike, h.again.trans hR.alike, h.words_both hS hR, ?_, ?_, ?_, ?_⟩
  · rw [hS.counts, hR.counts]
    exact h.low
  · rw [hS.counts, hR.counts]
    exact h.high
  · intro i hi hlt
    rw [hR.counts] at hi
    rw [hS.counts] at hlt
    rw [hR.elsewhere _ (by omega) (by omega)]
    exact h.above i hi hlt
  · intro i hi hlt hlt'
    rw [hS.counts] at hlt
    rw [hR.counts] at hlt'
    rw [hR.elsewhere _ (by omega) (by omega), hS.elsewhere _ (by omega) (by omega)]
    exact h.below i hi hlt hlt'

/-- A slot is filled on both pages, behind the last one on both of them.  The count may begin again
at zero. -/
theorem fill_last (h : Overlaid S R T) (hi : height S = i) (hlevel : height R = i)
    (hn : n = i + 1 ∨ n = 0) (hS : Wrote S (5 + i) v n S') (hR : Wrote R (5 + i) v n R') :
    Overlaid S' R' T := by
  refine ⟨h.before.trans hS.alike, h.again.trans hR.alike, h.words_both hS hR, ?_, ?_, ?_, ?_⟩
  · rw [hS.counts, hR.counts]
    exact Nat.min_le_left ..
  · rw [hS.counts, hR.counts]
    exact Nat.le_max_left ..
  · intro k hk hlt
    rw [hR.counts] at hk
    rw [hS.counts] at hlt
    omega
  · intro k hk hlt _
    rw [hS.counts] at hlt
    by_cases hki : k = i
    · subst hki
      rw [hR.there, hS.there]
    · rw [hR.elsewhere _ (by omega) (by omega), hS.elsewhere _ (by omega) (by omega)]
      exact h.below k hk (by omega) (by omega)

/-- A slot is filled on both pages, one that was in use already on the page on the way. -/
theorem fill_used (h : Overlaid S R T) (hi : height S = i) (hused : i < height R)
    (hS : Wrote S (5 + i) v (i + 1) S') (hR : Wrote R (5 + i) v (height R) R') :
    Overlaid S' R' T := by
  have hhigh := h.high
  refine ⟨h.before.trans hS.alike, h.again.trans hR.alike, h.words_both hS hR, ?_, ?_, ?_, ?_⟩
  · rw [hS.counts, hR.counts]
    omega
  · rw [hS.counts, hR.counts]
    omega
  · intro k hk hlt
    rw [hR.counts] at hk
    rw [hS.counts] at hlt
    omega
  · intro k hk hlt _
    rw [hS.counts] at hlt
    omega

/-- The last slot of both pages is emptied. -/
theorem empty_last (h : Overlaid S R T) (hi : height S = i + 1) (hlevel : height R = i + 1)
    (hS : Wrote S (5 + i) 0 i S') (hR : Wrote R (5 + i) 0 i R') : Overlaid S' R' T := by
  refine ⟨h.before.trans hS.alike, h.again.trans hR.alike, h.words_both hS hR, ?_, ?_, ?_, ?_⟩
  · rw [hS.counts, hR.counts]
    exact Nat.min_le_left ..
  · rw [hS.counts, hR.counts]
    exact Nat.le_max_left ..
  · intro k hk hlt
    rw [hR.counts] at hk
    rw [hS.counts] at hlt
    omega
  · intro k hk hlt _
    rw [hS.counts] at hlt
    rw [hR.elsewhere _ (by omega) (by omega), hS.elsewhere _ (by omega) (by omega)]
    exact h.below k hk (by omega) (by omega)

/-- The last slot is emptied, and nothing is done on the page on the way: the slot is not in use
there, or it holds what it holds in the end. -/
theorem empty_none (h : Overlaid S R T) (hi : height S = i + 1)
    (hclear : height R ≤ i ∨ i < height T) (hsame : word R (5 + i) = word T (5 + i))
    (hS : Wrote S (5 + i) 0 i S') : Overlaid S' R T := by
  have hlow := h.low
  have hhigh := h.high
  refine ⟨h.before.trans hS.alike, h.again, fun q hq => ?_, ?_, ?_, ?_, ?_⟩
  · by_cases hqi : q = 5 + i
    · exact .inr (hqi ▸ hsame)
    · rw [hS.elsewhere q hqi hq]
      exact h.words q hq
  · rw [hS.counts]
    omega
  · rw [hS.counts]
    omega
  · intro k hk hlt
    rw [hS.counts] at hlt
    exact h.above k hk (by omega)
  · intro k hk hlt hlt'
    rw [hS.counts] at hlt
    rw [hS.elsewhere _ (by omega) (by omega)]
    exact h.below k hk (by omega) hlt'

end Overlaid

end Node

/-! ### One change -/

/-- A change as giving back and taking pages make it: the node behind is set, the first slot that is
not in use is filled, or the last slot in use is emptied. -/
inductive PageChange.AtTop (page : Bytes) : PageChange → Prop
  | next (next : PageId) : AtTop page (.setNext next)
  | behind {slot : UInt16} (data : PageId) (count : Node.count page = .ok slot.toNat) :
      AtTop page (.add slot data)
  | last {slot : UInt16} {data : PageId} (count : Node.count page = .ok (slot.toNat + 1))
      (holds : Node.pageAt page slot.toNat = .ok data) : AtTop page (.remove slot data)

/-- The change is refused on the page, since it would leave a gap in front of the slot that it
fills, or since the slot that it empties holds the page number but is not the last. -/
inductive PageDelta.Stops (d : PageDelta) (m : Memory) (page : Bytes) : Prop
  | gap {slot : UInt16} {data : PageId} {n : Nat} (change : d.change = .add slot data)
      (count : Node.count page = .ok n) (behind : n < slot.toNat)
      (refused : (Record.delta d).apply m page = .error (.invalid .slotGap) page)
  | notLast {slot : UInt16} {data : PageId} {n : Nat} (change : d.change = .remove slot data)
      (count : Node.count page = .ok n) (front : slot.toNat + 1 < n)
      (holds : Node.pageAt page slot.toNat = .ok data)
      (refused : (Record.delta d).apply m page = .error (.invalid .removalNotLast) page)

/-- The change fills a slot. -/
def PageChange.fills : PageChange → Bool
  | .add .. => true
  | _ => false

/-- The change empties a slot. -/
def PageChange.empties : PageChange → Bool
  | .remove .. => true
  | _ => false

/-- Some of the changes fill slots, and some empty slots. -/
def PageDelta.Mixed (ds : List PageDelta) : Prop :=
  (∃ d ∈ ds, d.change.fills = true) ∧ ∃ d ∈ ds, d.change.empties = true

theorem PageDelta.Mixed.cons {ds : List PageDelta} (h : Mixed ds) (d : PageDelta) :
    Mixed (d :: ds) := by
  rcases h with ⟨⟨c, hc, hfills⟩, ⟨c', hc', hempties⟩⟩
  exact ⟨⟨c, List.mem_cons_of_mem d hc, hfills⟩, ⟨c', List.mem_cons_of_mem d hc', hempties⟩⟩

/-- No page of the memory is smaller than allowed. -/
def Memory.Large (m : Memory) : Prop := ∀ g size, m.pageSize g = .ok size → minPageSize ≤ size

section Step

variable {m : Memory} {d : PageDelta} {S S' R T : Bytes}

namespace Node

/-- What a change at the top of a page wrote. -/
inductive Topped (S : Bytes) (size : Nat) (S' : Bytes) : PageChange → Prop
  | next {next : PageId} (wrote : Wrote S 3 next (height S) S') : Topped S size S' (.setNext next)
  | behind {slot : UInt16} {data : PageId} (count : Node.count S = .ok slot.toNat)
      (room : slot.toNat < capacity size)
      (wrote : Wrote S (5 + slot.toNat) data ((slot.toNat + 1) % 2 ^ 16) S') :
      Topped S size S' (.add slot data)
  | last {slot : UInt16} {data : PageId} (count : Node.count S = .ok (slot.toNat + 1))
      (holds : word S (5 + slot.toNat) = bytesOfU64 data)
      (wrote : Wrote S (5 + slot.toNat) 0 slot.toNat S') : Topped S size S' (.remove slot data)

theorem topped_of_apply (hm : m.Large) (htop : d.change.AtTop S)
    (hrun : (Record.delta d).apply m S = .ok () S') :
    ∃ size, d.Fits m size S ∧ minPageSize ≤ S.length ∧ Topped S size S' d.change := by
  generalize hchange : d.change = change at htop
  have hinit : ∀ prev data, d.change ≠ .init prev data := by
    intro prev data heq
    rw [hchange] at heq
    subst heq
    cases htop
  rcases PageDelta.fits_of_apply hrun hinit with ⟨size, hfits⟩
  have hlarge : minPageSize ≤ S.length := Nat.le_trans (hm _ _ hfits.pageSize) hfits.room
  refine ⟨size, hfits, hlarge, ?_⟩
  -- what the change does is read off from what it may do on the page, since it is carried out
  cases htop with
  | next next =>
    rcases setNext_ok next hlarge with ⟨page, hset, hwrote⟩
    rw [hfits.apply_setNext hchange, hset] at hrun
    cases hrun
    exact .next hwrote
  | @behind slot data hcount =>
    rw [hfits.apply_add hchange] at hrun
    by_cases hroom : slot.toNat < capacity size
    · rcases setPageAt_cases data hlarge hcount hroom hfits.room with
        ⟨hgap, -⟩ | ⟨-, page, hset, hwrote⟩
      · exact absurd hgap (Nat.lt_irrefl _)
      · rw [hset] at hrun
        cases hrun
        rw [if_pos rfl] at hwrote
        exact .behind hcount hroom hwrote
    · simp only [setPageAt, if_pos (Nat.not_lt.1 hroom)] at hrun
      cases hrun
  | @last slot data hcount hholds =>
    rw [hfits.apply_remove hchange] at hrun
    have hword := (pageAt_eq_ok hlarge hcount (Nat.lt_succ_self _)).1 hholds
    rcases removeAt_cases slot.toNat data hlarge hcount with
      ⟨hne, -⟩ | ⟨hlt, -⟩ | ⟨-, -, page, hrun', hwrote⟩
    · exact absurd hword (hne (Nat.lt_succ_self _))
    · exact absurd hlt (Nat.lt_irrefl _)
    · rw [hrun'] at hrun
      cases hrun
      exact .last hcount hword hwrote

/-- Without changes that empty slots the count does not fall. -/
theorem Topped.height_le {size : Nat} {change : PageChange} (h : Topped S size S' change)
    (hsize : size ≤ S.length) (hlarge : minPageSize ≤ S.length)
    (hbits : capacity S.length < 2 ^ 16) (hkeeps : change.empties = false) :
    height S ≤ height S' := by
  cases h with
  | next wrote => exact Nat.le_of_eq wrote.counts.symm
  | behind count room wrote =>
    have hcount := ((count_eq_height hlarge).1 count).1
    have hroom := Nat.lt_of_lt_of_le room (capacity_mono hsize)
    rw [wrote.counts, Nat.mod_eq_of_lt (by omega)]
    omega
  | last => cases hkeeps

/-- Without changes that fill slots the count does not rise. -/
theorem Topped.height_ge {size : Nat} {change : PageChange} (h : Topped S size S' change)
    (hlarge : minPageSize ≤ S.length) (hkeeps : change.fills = false) : height S' ≤ height S := by
  cases h with
  | next wrote => exact Nat.le_of_eq wrote.counts
  | behind => cases hkeeps
  | last count holds wrote =>
    have hcount := ((count_eq_height hlarge).1 count).1
    rw [wrote.counts]
    omega

theorem Topped.alike {size : Nat} {change : PageChange} (h : Topped S size S' change) :
    Alike S S' := by
  cases h with
  | next wrote => exact wrote.alike
  | behind _ _ wrote => exact wrote.alike
  | last _ _ wrote => exact wrote.alike

/-- **One change** is carried out again on a page on the way, or is refused in one of the two
cases. -/
theorem Overlaid.step (h : Overlaid S R T) (hm : m.Large) (htop : d.change.AtTop S)
    (hrun : (Record.delta d).apply m S = .ok () S') :
    (∃ R', (Record.delta d).apply m R = .ok () R' ∧ Overlaid S' R' T) ∨ d.Stops m R := by
  rcases topped_of_apply hm htop hrun with ⟨size, hfits, hlarge, hmade⟩
  have halike : Alike S R := h.before.symm.trans h.again
  have hfitsR := hfits.alike halike
  have hlargeR : minPageSize ≤ R.length := by
    rw [halike.length]
    exact hlarge
  -- the count on the page on the way is good if that on the page before is
  have hcountR : ∀ n, Node.count S = .ok n → Node.count R = .ok (height R) := by
    intro n hn
    rcases (count_eq_height hlarge).1 hn with ⟨rfl, hle⟩
    refine (count_eq_height hlargeR).2 ⟨rfl, ?_⟩
    rw [halike.length]
    exact halike.valid.2 hle
  generalize hchange : d.change = change at hmade
  -- one case for each change at the top: a link, a slot behind all others, the last slot
  cases hmade with
  | @next next hS =>
    rcases setNext_ok next hlargeR with ⟨R', hset, hR⟩
    exact .inl ⟨R', (hfitsR.apply_setNext hchange).trans hset, h.setNext hS hR⟩
  | @behind slot data hcount hroom hS =>
    have hheight := ((count_eq_height hlarge).1 hcount).1
    have happly := hfitsR.apply_add hchange
    rcases setPageAt_cases data hlargeR (hcountR _ hcount) hroom hfitsR.room with
      ⟨hgap, hset⟩ | ⟨hle, R', hset, hR⟩
    · exact .inr (.gap hchange (hcountR _ hcount) hgap (happly.trans hset))
    · refine .inl ⟨R', happly.trans hset, ?_⟩
      have hlt := height_lt R
      by_cases hlevel : slot.toNat = height R
      · rw [if_pos hlevel, ← hlevel] at hR
        exact h.fill_last hheight hlevel.symm (by omega) hS hR
      · rw [if_neg hlevel] at hR
        rw [Nat.mod_eq_of_lt (by omega)] at hS
        exact h.fill_used hheight (by omega) hS hR
  | @last slot data hcount hholds hS =>
    have hheight := ((count_eq_height hlarge).1 hcount).1
    have happly := hfitsR.apply_remove hchange
    rcases removeAt_cases slot.toNat data hlargeR (hcountR _ hcount) with
      ⟨hne, hrun'⟩ | ⟨hlt, hholdsR, hrun'⟩ | ⟨hlevel, -, R', hrun', hR⟩
    · refine .inl ⟨R, happly.trans hrun', ?_⟩
      by_cases hused : slot.toNat < height R
      · -- the slot holds something else, and not what it held when the change was made
        have hother : word R (5 + slot.toNat) ≠ word S (5 + slot.toNat) := by
          rw [hholds]
          exact hne hused
        refine h.empty_none hheight (.inr ?_) ?_ hS
        · by_contra hlow
          exact hother (h.below _ (Nat.not_lt.1 hlow) (by omega) hused)
        · rcases h.words (5 + slot.toNat) (by omega) with hword | hword
          · exact absurd hword hother
          · exact hword
      · have hclear := Nat.not_lt.1 hused
        exact h.empty_none hheight (.inl hclear) (h.above _ hclear (by omega)) hS
    · exact .inr (.notLast hchange (hcountR _ hcount) hlt hholdsR (happly.trans hrun'))
    · exact .inl ⟨R', happly.trans hrun', h.empty_last hheight hlevel.symm hS hR⟩

end Node

end Step

/-! ### All changes of a page -/

/-- Changes of one page, carried out one after the other. -/
def redo (m : Memory) (ds : List PageDelta) : Act Bytes Unit :=
  ds.forM fun d => (Record.delta d).apply m

/-- Carried out one after the other on the page, the changes come to one that is refused. -/
inductive Halts (m : Memory) : List PageDelta → Bytes → Prop
  | here {d : PageDelta} {ds : List PageDelta} {page : Bytes} (stops : d.Stops m page) :
      Halts m (d :: ds) page
  | later {d : PageDelta} {ds : List PageDelta} {page page' : Bytes}
      (run : (Record.delta d).apply m page = .ok () page') (rest : Halts m ds page') :
      Halts m (d :: ds) page

section Run

variable {m : Memory} {d : PageDelta} {ds es : List PageDelta} {S S' R T : Bytes}

theorem redo_cons (d : PageDelta) (ds : List PageDelta) :
    redo m (d :: ds) = (Record.delta d).apply m >>= fun _ => redo m ds := rfl

theorem redo_append (ds es : List PageDelta) :
    redo m (ds ++ es) = redo m ds >>= fun _ => redo m es := List.forM_append

namespace Node

/-- The page went from `S` to `T` by changes each of which was made at its top. -/
inductive Led (m : Memory) : Bytes → List PageDelta → Bytes → Prop
  | nil (S : Bytes) : Led m S [] S
  | cons {S S' T : Bytes} {d : PageDelta} {ds : List PageDelta} (top : d.change.AtTop S)
      (run : (Record.delta d).apply m S = .ok () S') (rest : Led m S' ds T) : Led m S (d :: ds) T

theorem Led.redo (h : Led m S ds T) : redo m ds S = .ok () T := by
  induction h with
  | nil S => rfl
  | cons top run rest ih => rw [redo_cons, Act.bind_of_ok run, ih]

theorem Led.snoc (h : Led m S ds S') (htop : d.change.AtTop S')
    (hrun : (Record.delta d).apply m S' = .ok () T) : Led m S (ds ++ [d]) T := by
  induction h with
  | nil S => exact .cons htop hrun (.nil T)
  | cons top run rest ih => exact .cons top run (ih htop hrun)

/-- The page is known after any of the changes. -/
theorem Led.split (h : Led m S (ds ++ es) T) : ∃ S', Led m S ds S' ∧ Led m S' es T := by
  induction ds generalizing S with
  | nil => exact ⟨S, .nil S, h⟩
  | cons d ds ih =>
    cases h with
    | cons top run rest =>
      rcases ih rest with ⟨S', hfirst, hlast⟩
      exact ⟨S', .cons top run hfirst, hlast⟩

theorem Led.alike (h : Led m S ds T) (hm : m.Large) : Alike S T := by
  induction h with
  | nil S => exact .refl S
  | cons top run rest ih =>
    rcases topped_of_apply hm top run with ⟨size, -, -, hmade⟩
    exact hmade.alike.trans ih

theorem Led.height_le (h : Led m S ds T) (hm : m.Large) (hbits : capacity S.length < 2 ^ 16)
    (hkeeps : ∀ d ∈ ds, d.change.empties = false) : height S ≤ height T := by
  induction h with
  | nil S => exact Nat.le_refl _
  | cons top run rest ih =>
    rcases topped_of_apply hm top run with ⟨size, hfits, hlarge, hmade⟩
    refine Nat.le_trans (hmade.height_le hfits.room hlarge hbits ?_) (ih ?_ fun d hd => ?_)
    · exact hkeeps _ List.mem_cons_self
    · rwa [hmade.alike.length]
    · exact hkeeps d (List.mem_cons_of_mem _ hd)

theorem Led.height_ge (h : Led m S ds T) (hm : m.Large)
    (hkeeps : ∀ d ∈ ds, d.change.fills = false) : height T ≤ height S := by
  induction h with
  | nil S => exact Nat.le_refl _
  | cons top run rest ih =>
    rcases topped_of_apply hm top run with ⟨size, -, hlarge, hmade⟩
    refine Nat.le_trans (ih fun d hd => ?_) (hmade.height_ge hlarge ?_)
    · exact hkeeps d (List.mem_cons_of_mem _ hd)
    · exact hkeeps _ List.mem_cons_self

/-- A change is refused only if slots are filled and emptied from there on: the page on the way is
as high as the pages before and behind, or between them. -/
theorem Overlaid.mixed (h : Overlaid S R T) (hm : m.Large) (htop : d.change.AtTop S)
    (hrun : (Record.delta d).apply m S = .ok () S') (hrest : Led m S' ds T)
    (hstops : d.Stops m R) (hbits : capacity S.length < 2 ^ 16) : PageDelta.Mixed (d :: ds) := by
  rcases topped_of_apply hm htop hrun with ⟨-, -, hlarge, -⟩
  have hled : Led m S (d :: ds) T := .cons htop hrun hrest
  have hlow := h.low
  have hhigh := h.high
  have hlargeR : minPageSize ≤ R.length := by rwa [(h.before.symm.trans h.again).length]
  cases hstops with
  | @gap slot data n change count behind refused =>
    rw [change] at htop
    cases htop with
    | behind _ hcount =>
      have hheight := ((count_eq_height hlarge).1 hcount).1
      refine ⟨⟨d, List.mem_cons_self, by rw [change]; rfl⟩, ?_⟩
      -- if no slot were emptied from here on, the pages could only grow, and leave no gap
      by_contra hnone
      have hle := hled.height_le hm hbits fun c hc =>
        Bool.eq_false_iff.2 fun hempties => hnone ⟨c, hc, hempties⟩
      have hn := ((count_eq_height hlargeR).1 count).1
      omega
  | @notLast slot data n change count front holds refused =>
    rw [change] at htop
    cases htop with
    | last hcount _ =>
      have hheight := ((count_eq_height hlarge).1 hcount).1
      refine ⟨?_, ⟨d, List.mem_cons_self, by rw [change]; rfl⟩⟩
      -- if no slot were filled from here on, the pages could only shrink, and no slot lie behind
      by_contra hnone
      have hle := hled.height_ge hm fun c hc =>
        Bool.eq_false_iff.2 fun hfills => hnone ⟨c, hc, hfills⟩
      have hn := ((count_eq_height hlargeR).1 count).1
      omega

/-- The changes are carried out on a page on the way, or one of them is refused. -/
theorem Overlaid.redo (h : Overlaid S R T) (hm : m.Large) (hled : Led m S ds T)
    (hlarge : minPageSize ≤ T.length) :
    redo m ds R = .ok () T ∨
      Halts m ds R ∧ (capacity S.length < 2 ^ 16 → PageDelta.Mixed ds) := by
  induction hled generalizing R with
  | nil S =>
    left
    rw [h.agree hlarge]
    rfl
  | @cons S S' T d ds top run rest ih =>
    rcases h.step hm top run with ⟨R', hrun, h'⟩ | hstops
    · rcases ih h' hlarge with hall | ⟨hhalts, hmixed⟩
      · left
        rw [redo_cons, Act.bind_of_ok hrun, hall]
      · refine .inr ⟨.later hrun hhalts, fun hbits => ?_⟩
        have hlength : S'.length = S.length := by
          rcases topped_of_apply hm top run with ⟨_, -, -, hmade⟩
          exact hmade.alike.length
        exact (hmixed (by rwa [hlength])).cons d
    · exact .inr ⟨.here hstops, h.mixed hm top run rest hstops⟩

/-- **The changes of a page are carried out again**, from any of the pages on the way.  They end in
the same page, unless one of those that the page has already is refused.  Where the count does not
begin again at zero, this takes both slots that were filled and slots that were emptied. -/
theorem Led.reread (h : Led m S ds T) (hm : m.Large) (k : Nat) :
    ∃ page, PageLog.redo m (ds.take k) S = .ok () page ∧
      (PageLog.redo m ds page = .ok () T ∨
        Halts m (ds.take k) page ∧
          (capacity S.length < 2 ^ 16 → PageDelta.Mixed (ds.take k))) := by
  have hparts := h
  rw [← List.take_append_drop k ds] at hparts
  rcases hparts.split with ⟨Q, hfirst, hlast⟩
  refine ⟨Q, hfirst.redo, ?_⟩
  -- what is left once the first changes were carried out again
  have hrest : PageLog.redo m (ds.take k) Q = .ok () Q → PageLog.redo m ds Q = .ok () T := by
    intro hagain
    rw [← List.take_append_drop k ds, redo_append, Act.bind_of_ok hagain, hlast.redo]
  have hstart : Overlaid S Q Q := .start (hfirst.alike hm).symm
  generalize ds.take k = first at hfirst hrest
  cases hfirst with
  | nil => exact .inl (hrest rfl)
  | @cons _ S' _ d rest top run hmore =>
    have hled : Led m S (d :: rest) Q := .cons top run hmore
    have hlarge : minPageSize ≤ Q.length := by
      rcases topped_of_apply hm top run with ⟨-, -, hlarge, -⟩
      rw [(hled.alike hm).length]
      exact hlarge
    rcases hstart.redo hm hled hlarge with hagain | hhalts
    · exact .inl (hrest hagain)
    · exact .inr hhalts

end Node

end Run

end PageLog
