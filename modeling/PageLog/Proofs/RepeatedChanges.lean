import PageLog.Proofs.PageWords
import PageLog.Proofs.PageSteps

/-!
# Changes carried out twice

A change says what a place of the page is to hold, not by how much the page is to move on: carried
out on its own result it finds everything done.  Filling a slot counts the slot only if it was not
counted yet, and emptying a slot that is not in use does nothing, so the second time goes another
way than the first and still writes nothing new.

## Main definitions

* `Node.Settles` — a change is at rest on the page it led to.

## Main results

* `Node.Wrote.same` — the same word and the same count written again.
* `Node.setPageAt_again`, `Node.removeAt_again` — slots filled and emptied twice.
* `PageDelta.onCopy_again` — pages made nodes twice.
* `Record.delta_apply_twice` — **a change carried out twice is carried out once**.
-/

namespace PageLog

namespace Node

variable {page page' page'' : Bytes} {q n i size : Nat} {v : UInt64} {data : PageId}

/-- A change went from `page` to `page'` and is at rest there: it touched nothing but words and the
count, and carried out once more it changes nothing. -/
structure Settles (act : Act Bytes Unit) (page page' : Bytes) : Prop where
  alike : Alike page page'
  again : act page' = .ok () page'

/-- A page on which a word and the count already stand does not change when they are written. -/
theorem Wrote.same (h : Wrote page q v n page') (h' : Wrote page' q v n page'')
    (hlarge : minPageSize ≤ page.length) : page'' = page' := by
  have hlarge' : minPageSize ≤ page'.length := by
    rw [h.alike.length]
    exact hlarge
  refine h'.alike.eq_of_words hlarge' (h'.counts.trans h.counts.symm) ?_
  intro q' hcount
  by_cases hq : q' = q
  · rw [hq, h'.there, h.there]
  · exact h'.elsewhere q' hq hcount

/-- A word behind the header is the same once it was written, and so is the rest of the page. -/
theorem writeWord_again (hlarge : minPageSize ≤ page.length) (hfit : 8 * q + 8 ≤ page.length)
    (hq : 2 ≤ q) (hcount : q ≠ 4) (h : Field.writeU64 (8 * q) v page = .ok () page') :
    Settles (Field.writeU64 (8 * q) v) page page' := by
  obtain ⟨page₁, hset, hwrote⟩ := writeWord_ok v hfit hq hcount
  obtain rfl : page₁ = page' := by
    rw [hset] at h
    cases h
    rfl
  have hfit₁ : 8 * q + 8 ≤ page₁.length := by rwa [hwrote.alike.length]
  obtain ⟨page₂, hset₂, hwrote₂⟩ := writeWord_ok v hfit₁ hq hcount
  rw [hwrote.counts] at hwrote₂
  refine ⟨hwrote.alike, ?_⟩
  rw [hset₂, hwrote.same hwrote₂ hlarge]

/-- Only a slot that fits is filled, and only on a page with a good count. -/
theorem of_setPageAt_ok (h : setPageAt i data size page = .ok () page') :
    i < capacity size ∧ ∃ n, count page = .ok n := by
  by_cases hi : capacity size ≤ i
  · simp only [setPageAt, if_pos hi] at h
    cases h
  · simp only [setPageAt, if_neg hi] at h
    obtain ⟨n, _, hlook, -⟩ := Act.bind_eq_ok.1 h
    exact ⟨Nat.not_le.1 hi, n, (Act.look_eq_ok.1 hlook).1⟩

/-- A slot that was filled is filled with the same page number once more.  The bound on the size
keeps the count of a full page within its 16 bits. -/
theorem setPageAt_again (hsize : minPageSize ≤ size) (hroom : size ≤ page.length)
    (hsmall : capacity size < 2 ^ 16) (h : setPageAt i data size page = .ok () page') :
    Settles (setPageAt i data size) page page' := by
  have hlarge : minPageSize ≤ page.length := Nat.le_trans hsize hroom
  obtain ⟨hi, n, hcount⟩ := of_setPageAt_ok h
  obtain ⟨hheight, hvalid⟩ := (count_eq_height hlarge).1 hcount
  rcases setPageAt_cases data hlarge hcount hi hroom with
    ⟨-, hrefused⟩ | ⟨hle, page₁, hset, hwrote⟩
  · rw [hrefused] at h
    cases h
  · obtain rfl : page₁ = page' := by
      rw [hset] at h
      cases h
      rfl
    -- the slot is one of those in use now, whichever way it was written
    have hcounts : height page₁ = if i = n then n + 1 else n := by
      rw [hwrote.counts]
      split
      · exact Nat.mod_eq_of_lt (by omega)
      · rfl
    have hlarge₁ : minPageSize ≤ page₁.length := by rwa [hwrote.alike.length]
    have hroom₁ : size ≤ page₁.length := by rwa [hwrote.alike.length]
    have hmono := capacity_mono hroom₁
    have hcount₁ : count page₁ = .ok (height page₁) := by
      refine (count_eq_height hlarge₁).2 ⟨rfl, ?_⟩
      rw [hwrote.alike.length] at hmono ⊢
      split at hcounts <;> omega
    have hused : i < height page₁ := by
      split at hcounts <;> omega
    rcases setPageAt_cases data hlarge₁ hcount₁ hi hroom₁ with
      ⟨hgap, -⟩ | ⟨-, page₂, hset₂, hwrote₂⟩
    · omega
    · rw [if_neg (Nat.ne_of_lt hused), hwrote.counts] at hwrote₂
      refine ⟨hwrote.alike, ?_⟩
      rw [hset₂, hwrote.same hwrote₂ hlarge]

/-- Only on a page with a good count a slot is emptied. -/
theorem of_discard_removeAt_ok (h : discard (removeAt i data) page = .ok () page') :
    ∃ n, count page = .ok n := by
  cases hrun : removeAt i data page with
  | error e page₁ =>
    have hrefused : discard (removeAt i data) page = .error e page₁ := Act.map_of_error hrun
    rw [hrefused] at h
    cases h
  | ok emptied page₁ =>
    obtain ⟨n, _, hlook, -⟩ := Act.bind_eq_ok.1 hrun
    exact ⟨n, (Act.look_eq_ok.1 hlook).1⟩

/-- A slot that was emptied is not in use any more, and is left alone. -/
theorem removeAt_again (hlarge : minPageSize ≤ page.length)
    (h : discard (removeAt i data) page = .ok () page') :
    Settles (discard (removeAt i data)) page page' := by
  obtain ⟨n, hcount⟩ := of_discard_removeAt_ok h
  rcases removeAt_cases i data hlarge hcount with
    ⟨-, hnothing⟩ | ⟨-, -, hrefused⟩ | ⟨htop, -, page₁, hremoved, hwrote⟩
  · rw [hnothing] at h
    cases h
    exact ⟨.refl _, hnothing⟩
  · rw [hrefused] at h
    cases h
  · obtain rfl : page₁ = page' := by
      rw [hremoved] at h
      cases h
      rfl
    have hlarge₁ : minPageSize ≤ page₁.length := by rwa [hwrote.alike.length]
    have hvalid := ((count_eq_height hlarge).1 hcount).2
    have hcount₁ : count page₁ = .ok i := by
      refine (count_eq_height hlarge₁).2 ⟨hwrote.counts, ?_⟩
      rw [hwrote.alike.length]
      omega
    -- the slot is now behind the count
    rcases removeAt_cases i data hlarge₁ hcount₁ with
      ⟨-, hnothing⟩ | ⟨hbelow, -, -⟩ | ⟨htop₁, -, -⟩
    · exact ⟨hwrote.alike, hnothing⟩
    · omega
    · omega

end Node

namespace PageDelta

variable {d : PageDelta} {m : Memory} {size : Nat} {page page' : Bytes}

/-- A step on a copy that pays no heed to what stands on the page gives the same page again. -/
theorem onCopy_again {act : Act Bytes Unit} (hsteady : act.Steady)
    (hsame : ∀ bs bs' : Bytes, bs.length = size → bs'.length = size → act bs = act bs')
    (hroom : size ≤ page.length) (h : onCopy size act page = .ok () page') :
    onCopy size act page' = .ok () page' := by
  have hcopy : (page.take size).length = size := List.length_take_of_le hroom
  rw [onCopy] at h
  cases hact : act (page.take size) with
  | error e fresh =>
    rw [hact] at h
    cases h
  | ok u fresh =>
    rw [hact] at h
    cases h
    -- the copy keeps its length, and is put back in front of the rest
    have hfresh : fresh.length = size := by
      have hkept := hsteady.length (page.take size)
      rwa [Act.left_of_ok hact, hcopy] at hkept
    have hfront : (fresh ++ page.drop size).take size = fresh := by
      rw [← hfresh, List.take_left]
    have hback : (fresh ++ page.drop size).drop size = page.drop size := by
      rw [← hfresh, List.drop_left]
    have hagain : act fresh = .ok () fresh := by rw [hsame fresh _ hfresh hcopy, hact]
    rw [onCopy, hfront, hback, hagain]

/-- A change goes through only on a page that is at least as long as the pages of its group. -/
theorem room_of_apply (h : (Record.delta d).apply m page = .ok () page')
    (hgroup : m.pageSize d.target.group = .ok size) : size ≤ page.length := by
  have hlook : Act.ofResult (m.pageSize d.target.group) page = .ok size page :=
    Act.ofResult_eq_ok.2 ⟨hgroup, rfl⟩
  rw [Record.apply, Act.bind_of_ok hlook, Act.get_bind] at h
  by_contra hshort
  simp only [if_pos (Nat.not_le.1 hshort)] at h
  cases h

theorem apply_init_again {prev data : PageId} (hd : d.change = .init prev data)
    (hsize : minPageSize ≤ size) (hroom : size ≤ page.length)
    (h : d.apply .standard size page = .ok () page') :
    d.apply .standard size page' = .ok () page' := by
  simp only [apply, hd] at h ⊢
  obtain ⟨format, _, hlookup, hcopy⟩ := Act.bind_eq_ok.1 h
  obtain ⟨hformat, rfl⟩ := Act.ofResult_eq_ok.1 hlookup
  obtain rfl := Formats.eq_v1_of_lookup hformat
  have hlook : Act.ofResult (Formats.standard.lookup d.target.ioType d.target.ioVersion) page' =
      .ok .v1 page' := Act.ofResult_eq_ok.2 ⟨hformat, rfl⟩
  rw [Act.bind_of_ok hlook]
  refine onCopy_again (steady_initNode ..) ?_ hroom hcopy
  intro bs bs' hbs hbs'
  rw [initNode_v1 _ _ _ hsize hbs, initNode_v1 _ _ _ hsize hbs']

/-- A change of a node is settled once it went through; each kind of change has its own reason. -/
theorem Fits.apply_again (hfits : d.Fits m size page) (hsize : minPageSize ≤ size)
    (hsmall : Node.capacity size < 2 ^ 16) (hinit : ∀ prev data, d.change ≠ .init prev data)
    (h : (Record.delta d).apply m page = .ok () page') :
    (Record.delta d).apply m page' = .ok () page' := by
  have hlarge : minPageSize ≤ page.length := Nat.le_trans hsize hfits.room
  have hlarge' : 64 ≤ page.length := hlarge
  cases hd : d.change with
  | init prev data => exact absurd hd (hinit prev data)
  | setNext next =>
    rw [hfits.apply_setNext hd] at h
    -- the page is still one that the change is about
    have hsettles := @Node.writeWord_again page page' 3 next hlarge (by omega) (by decide)
      (by decide) h
    rw [(hfits.alike hsettles.alike).apply_setNext hd]
    exact hsettles.again
  | setPrev prev =>
    rw [hfits.apply_setPrev hd] at h
    have hsettles := @Node.writeWord_again page page' 2 prev hlarge (by omega) (by decide)
      (by decide) h
    rw [(hfits.alike hsettles.alike).apply_setPrev hd]
    exact hsettles.again
  | add slot data =>
    rw [hfits.apply_add hd] at h
    have hsettles := Node.setPageAt_again hsize hfits.room hsmall h
    rw [(hfits.alike hsettles.alike).apply_add hd]
    exact hsettles.again
  | remove slot data =>
    rw [hfits.apply_remove hd] at h
    have hsettles := Node.removeAt_again hlarge h
    rw [(hfits.alike hsettles.alike).apply_remove hd]
    exact hsettles.again

end PageDelta

/-- A change that goes through and turns a page into another goes through on that one as well and
leaves it as it is, byte for byte.  Nothing is said of what stood on the page before: it may be a
node, blank or damaged, and longer than the pages of its group. -/
theorem Record.delta_apply_twice {m : Memory} (hformats : m.formats = .standard) {d : PageDelta}
    {size : Nat} (hgroup : m.pageSize d.target.group = .ok size) (hsize : minPageSize ≤ size)
    (hbound : size < 524328) {page page' : Bytes}
    (h : (Record.delta d).apply m page = .ok () page') :
    (Record.delta d).apply m page' = .ok () page' := by
  have hsmall : Node.capacity size < 2 ^ 16 := by
    simp only [Node.capacity, Node.slotsOffset, Node.slotSize]
    omega
  by_cases hinit : ∃ prev data, d.change = .init prev data
  · obtain ⟨prev, data, hd⟩ := hinit
    have hlength : page'.length = page.length := by
      have hkept := ((Record.delta d).steady_apply m).length page
      rwa [Act.left_of_ok h] at hkept
    have hroom : size ≤ page.length := PageDelta.room_of_apply h hgroup
    have hroom' : size ≤ page'.length := by rwa [hlength]
    rw [Record.apply_delta hgroup hroom rfl, hformats] at h
    rw [Record.apply_delta hgroup hroom' rfl, hformats]
    exact PageDelta.apply_init_again hd hsize hroom h
  · -- any other change succeeds only on a page that is its node already
    have hother : ∀ prev data, d.change ≠ .init prev data := by
      intro prev data hd
      exact hinit ⟨prev, data, hd⟩
    obtain ⟨size₁, hfits⟩ := PageDelta.fits_of_apply h hother
    obtain rfl : size₁ = size := by
      have heq := hfits.pageSize.symm.trans hgroup
      cases heq
      rfl
    exact hfits.apply_again hsize hsmall hother h

/-- The last slot of a page is filled with the page number that stands in the slot before it.  The
page is longer than the pages of its group, and nothing on it is blank that need not be. -/
theorem Record.delta_apply_twice_of_last_slot :
    let m := Memory.fresh [(1, 64)]
    let fill : Record := .delta ⟨⟨1, 5, 12, 1⟩, .add 2 8⟩
    let page : Bytes := [0, 12, 0, 1, 9, 9, 9, 9] ++ bytesOfU64 5 ++ bytesOfU64 0 ++ bytesOfU64 3 ++
      [0, 2, 1, 2, 3, 4, 5, 6] ++ bytesOfU64 7 ++ bytesOfU64 8 ++ bytesOfU64 255 ++ [1]
    let filled : Bytes := [0, 12, 0, 1, 9, 9, 9, 9] ++ bytesOfU64 5 ++ bytesOfU64 0 ++
      bytesOfU64 3 ++ [0, 3, 1, 2, 3, 4, 5, 6] ++ bytesOfU64 7 ++ bytesOfU64 8 ++
      bytesOfU64 8 ++ [1]
    m.formats = .standard ∧ m.pageSize 1 = .ok 64 ∧ fill.apply m page = .ok () filled ∧
      fill.apply m filled = .ok () filled := by
  intro m fill page filled
  have hgroup : m.pageSize 1 = .ok 64 := by decide +kernel
  have hfirst : fill.apply m page = .ok () filled := by decide +kernel
  exact ⟨rfl, hgroup, hfirst, delta_apply_twice rfl hgroup (by decide) (by decide) hfirst⟩

end PageLog
