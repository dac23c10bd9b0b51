import PageLog.Proofs.NodePages

/-!
# The words of a page

A node page is taken here as a row of words of eight bytes.  The fifth word begins with the count of
slots; every other field that a change writes is a word of its own.  Each change of a node writes
one word and perhaps the count, or is refused, whatever else stands on the page.

## Main definitions

* `Node.word`, `Node.height` — a word of a page, and the count of slots as it stands there.
* `Node.Alike` — what no change of a node touches.
* `Node.Wrote` — one word and the count were written.
* `PageDelta.Fits` — the page is one that a change is about.

## Main results

* `Node.Alike.eq_of_words` — words and count determine a page.
* `Node.setNext_ok`, `Node.setPageAt_cases`, `Node.removeAt_cases` — what changes write.
* `PageDelta.Fits.apply_setNext`, `PageDelta.Fits.apply_add`, `PageDelta.Fits.apply_remove` — the
  same for records.
-/

namespace PageLog

namespace Bytes

/-- Strings that agree on a window agree at every place in it. -/
theorem getElem?_eq_of_slice {bs bs' : Bytes} {off width : Nat}
    (h : (bs'.drop off).take width = (bs.drop off).take width) {p : Nat} (hoff : off ≤ p)
    (hp : p < off + width) : bs'[p]? = bs[p]? := by
  have hplace := congrArg (fun w : Bytes => w[p - off]?) h
  simp only [getElem?_slice, if_pos (show p - off < width by omega)] at hplace
  rwa [show off + (p - off) = p by omega] at hplace

end Bytes

namespace Node

/-! ### Words and counts -/

/-- The word of eight bytes in place `q` of a page. -/
def word (page : Bytes) (q : Nat) : Bytes := (page.drop (8 * q)).take 8

/-- The count of slots as it stands on a page. -/
def height (page : Bytes) : Nat := (Bytes.toU16 ((page.drop countOffset).take 2)).toNat

theorem slotOffset_eq (i : Nat) : slotOffset i = 8 * (5 + i) := by
  simp only [slotOffset, slotsOffset, slotSize]
  omega

section Words

variable {page data : Bytes} {off q n i : Nat} {v : UInt64}

theorem word_beside (h : off + data.length ≤ page.length)
    (hdisj : 8 * q + 8 ≤ off ∨ off + data.length ≤ 8 * q) :
    word (Bytes.overwrite page off data) q = word page q :=
  Bytes.slice_overwrite_of_disjoint (by omega) hdisj

theorem word_there (h : 8 * q + 8 ≤ page.length) :
    word (Bytes.overwrite page (8 * q) (bytesOfU64 v)) q = bytesOfU64 v := by
  have hthere : ((Bytes.overwrite page (8 * q) (bytesOfU64 v)).drop (8 * q)).take
      (bytesOfU64 v).length = bytesOfU64 v := Bytes.slice_overwrite_self (by omega)
  rwa [length_bytesOfU64] at hthere

theorem height_beside (h : off + data.length ≤ page.length)
    (hdisj : 34 ≤ off ∨ off + data.length ≤ 32) :
    height (Bytes.overwrite page off data) = height page := by
  have hslice : ((Bytes.overwrite page off data).drop countOffset).take 2 =
      (page.drop countOffset).take 2 :=
    Bytes.slice_overwrite_of_disjoint (by omega) (by simp only [countOffset]; omega)
  rw [height, hslice, height]

theorem height_there {c : UInt16} (h : minPageSize ≤ page.length) :
    height (Bytes.overwrite page countOffset (bytesOfU16 c)) = c.toNat := by
  have h' : 64 ≤ page.length := h
  have hthere : ((Bytes.overwrite page countOffset (bytesOfU16 c)).drop countOffset).take
      (bytesOfU16 c).length = bytesOfU16 c :=
    Bytes.slice_overwrite_self (by simp only [countOffset]; omega)
  rw [length_bytesOfU16] at hthere
  rw [height, hthere, Bytes.toU16_bytesOfU16]

theorem capacity_mono {size size' : Nat} (h : size ≤ size') : capacity size ≤ capacity size' :=
  Nat.div_le_div_right (Nat.sub_le_sub_right h _)

theorem height_lt (page : Bytes) : height page < 2 ^ 16 := UInt16.toNat_lt _

/-- The count is read as it stands, unless there is no room for so many slots. -/
theorem count_eq_height (h : minPageSize ≤ page.length) :
    count page = .ok n ↔ height page = n ∧ n ≤ capacity page.length := by
  have h' : 64 ≤ page.length := h
  have hread : Field.readU16 page countOffset =
      .ok (Bytes.toU16 ((page.drop countOffset).take 2)) := by
    rw [Field.readU16, Field.read_eq_ok (by simp only [countOffset]; omega)]
    rfl
  rw [count_eq_ok, hread, Except.ok.injEq, height]
  constructor
  · rintro ⟨hcount, hlt, hle⟩
    exact ⟨by rw [hcount, UInt16.toNat_ofNat_of_lt' hlt], hle⟩
  · rintro ⟨rfl, hle⟩
    exact ⟨UInt16.ofNat_toNat.symm, UInt16.toNat_lt _, hle⟩

/-- The page number in a slot in use is its word. -/
theorem pageAt_eq (h : minPageSize ≤ page.length) (hcount : count page = .ok n) (hi : i < n) :
    pageAt page i = .ok (Bytes.toU64 (word page (5 + i))) := by
  have hle := ((count_eq_height h).1 hcount).2
  have hfit := slotOffset_lt (Nat.lt_of_lt_of_le hi hle)
  simp only [pageAt, hcount, bind, Except.bind, if_neg (Nat.not_le.2 hi)]
  rw [Field.readU64, Field.read_eq_ok hfit, slotOffset_eq]
  rfl

theorem length_word (h : 8 * q + 8 ≤ page.length) : (word page q).length = 8 := by
  rw [word, List.length_take, List.length_drop]
  omega

/-- A slot in use holds a page number just when its word is that number. -/
theorem pageAt_eq_ok (h : minPageSize ≤ page.length) (hcount : count page = .ok n) (hi : i < n) :
    pageAt page i = .ok v ↔ word page (5 + i) = bytesOfU64 v := by
  have hle := ((count_eq_height h).1 hcount).2
  have hfit := slotOffset_lt (Nat.lt_of_lt_of_le hi hle)
  rw [slotOffset_eq] at hfit
  rw [pageAt_eq h hcount hi, Except.ok.injEq]
  constructor
  · rintro rfl
    rw [bytesOfU64_toU64 (length_word hfit)]
  · intro hword
    rw [hword, Bytes.toU64_bytesOfU64]

end Words

/-! ### What changes leave alone -/

/-- The pages agree on everything that no change of a node touches, and the count of one is good
just when that of the other is. -/
structure Alike (page page' : Bytes) : Prop where
  length : page'.length = page.length
  header : page'.take PageHeader.size = page.take PageHeader.size
  reserved : (page'.drop 34).take 6 = (page.drop 34).take 6
  valid : height page' ≤ capacity page.length ↔ height page ≤ capacity page.length

namespace Alike

variable {page page' page'' : Bytes}

theorem refl (page : Bytes) : Alike page page := ⟨rfl, rfl, rfl, Iff.rfl⟩

theorem symm (h : Alike page page') : Alike page' page :=
  ⟨h.length.symm, h.header.symm, h.reserved.symm, by rw [h.length]; exact h.valid.symm⟩

theorem trans (h : Alike page page') (h' : Alike page' page'') : Alike page page'' := by
  have hvalid := h'.valid
  rw [h.length] at hvalid
  exact ⟨h'.length.trans h.length, h'.header.trans h.header, h'.reserved.trans h.reserved,
    hvalid.trans h.valid⟩

theorem parse (h : Alike page page') : PageHeader.parse page' = PageHeader.parse page := by
  have hwindow : Bytes.window page' 0 PageHeader.size = Bytes.window page 0 PageHeader.size := by
    rw [Bytes.window_eq, Bytes.window_eq, h.length, List.drop_zero, List.drop_zero, h.header]
  rw [PageHeader.parse, PageHeader.parse, hwindow]

/-- The words of a page and its count determine the page. -/
theorem eq_of_words (h : Alike page page') (hlarge : minPageSize ≤ page.length)
    (hheight : height page' = height page) (hwords : ∀ q, q ≠ 4 → word page' q = word page q) :
    page' = page := by
  have hlarge' : 64 ≤ page.length := hlarge
  have hcount : (page'.drop countOffset).take 2 = (page.drop countOffset).take 2 := by
    have hlength : ∀ bs : Bytes, bs.length = page.length →
        ((bs.drop countOffset).take 2).length = 2 := by
      intro bs hbs
      rw [List.length_take, List.length_drop, hbs]
      simp only [countOffset]
      omega
    have hnumber := UInt16.toNat_inj.1 hheight
    rw [← bytesOfU16_toU16 (hlength page' h.length), hnumber, bytesOfU16_toU16 (hlength page rfl)]
  apply List.ext_getElem?
  intro p
  by_cases hp : p / 8 = 4
  · by_cases hfront : p < 34
    · exact Bytes.getElem?_eq_of_slice hcount (by simp only [countOffset]; omega)
        (by simp only [countOffset]; omega)
    · exact Bytes.getElem?_eq_of_slice h.reserved (by omega) (by omega)
  · exact Bytes.getElem?_eq_of_slice (hwords (p / 8) hp) (by omega) (by omega)

end Alike

/-! ### What changes write -/

/-- The page `page'` comes from `page` by writing `v` into the word in place `q`; the count is `n`
then. -/
structure Wrote (page : Bytes) (q : Nat) (v : UInt64) (n : Nat) (page' : Bytes) : Prop where
  alike : Alike page page'
  there : word page' q = bytesOfU64 v
  elsewhere : ∀ q', q' ≠ q → q' ≠ 4 → word page' q' = word page q'
  counts : height page' = n

section Wrote

variable {page page' : Bytes} {q n i size : Nat} {v : UInt64} {data : PageId}

/-- A word behind the header is written, but not the one with the count. -/
theorem writeWord_ok (v : UInt64) (hfit : 8 * q + 8 ≤ page.length) (hq : 2 ≤ q) (hcount : q ≠ 4) :
    ∃ page', Field.writeU64 (8 * q) v page = .ok () page' ∧
      Wrote page q v (height page) page' := by
  have hfit' : 8 * q + (bytesOfU64 v).length ≤ page.length := by rwa [length_bytesOfU64]
  have hlen := length_bytesOfU64 v
  have hheight : height (Bytes.overwrite page (8 * q) (bytesOfU64 v)) = height page :=
    height_beside hfit' (by omega)
  refine ⟨_, Field.writeU64_ok hfit, ⟨Bytes.length_overwrite hfit', ?_, ?_, by rw [hheight]⟩,
    word_there hfit, fun q' hne _ => word_beside hfit' (by omega), hheight⟩
  · exact Bytes.slice_overwrite_of_disjoint (o := 0) (by omega)
      (by simp only [PageHeader.size]; omega)
  · exact Bytes.slice_overwrite_of_disjoint (by omega) (by omega)

/-- The count is written after a word. -/
theorem Wrote.counted (h : Wrote page q v n page') (hcount : q ≠ 4)
    (hlarge : minPageSize ≤ page.length)
    (hvalid : height page ≤ capacity page.length) {k : Nat}
    (hk : k % 2 ^ 16 ≤ capacity page.length) :
    ∃ page'', setCount k page' = .ok () page'' ∧ Wrote page q v (k % 2 ^ 16) page'' := by
  have hlarge' : 64 ≤ page'.length := by
    rw [h.alike.length]
    exact hlarge
  have hfit : countOffset + (bytesOfU16 (UInt16.ofNat k)).length ≤ page'.length := by
    rw [length_bytesOfU16]
    simp only [countOffset]
    omega
  have hlen := length_bytesOfU16 (UInt16.ofNat k)
  have hheight : height (Bytes.overwrite page' countOffset (bytesOfU16 (UInt16.ofNat k))) =
      k % 2 ^ 16 := by
    rw [height_there hlarge', UInt16.toNat_ofNat']
  -- no other word holds a part of the count
  have hbeside : ∀ q', q' ≠ 4 →
      word (Bytes.overwrite page' countOffset (bytesOfU16 (UInt16.ofNat k))) q' = word page' q' :=
    fun q' hq' => word_beside hfit (by simp only [countOffset]; omega)
  refine ⟨_, Field.writeU16_ok (by simp only [countOffset]; omega), ⟨?_, ?_, ?_, ?_⟩, ?_,
    fun q' hne hq' => (hbeside q' hq').trans (h.elsewhere q' hne hq'), hheight⟩
  · rw [Bytes.length_overwrite hfit, h.alike.length]
  · refine Eq.trans ?_ h.alike.header
    exact Bytes.slice_overwrite_of_disjoint (o := 0) (by omega) (.inl (by decide))
  · refine Eq.trans ?_ h.alike.reserved
    exact Bytes.slice_overwrite_of_disjoint (by omega) (.inr (by rw [hlen]; decide))
  · rw [hheight]
    exact iff_of_true hk hvalid
  · rw [hbeside q hcount, h.there]

theorem setNext_ok (next : PageId) (hlarge : minPageSize ≤ page.length) :
    ∃ page', setNext next page = .ok () page' ∧ Wrote page 3 next (height page) page' := by
  have hlarge' : 64 ≤ page.length := hlarge
  exact @writeWord_ok page 3 next (by omega) (by decide) (by decide)

/-- A slot is written; in front of a gap this is refused. -/
theorem setPageAt_cases (data : PageId) (hlarge : minPageSize ≤ page.length)
    (hcount : count page = .ok n) (hi : i < capacity size) (hsize : size ≤ page.length) :
    (n < i ∧ setPageAt i data size page = .error (.invalid .slotGap) page) ∨
      i ≤ n ∧ ∃ page', setPageAt i data size page = .ok () page' ∧
        Wrote page (5 + i) data (if i = n then (n + 1) % 2 ^ 16 else n) page' := by
  rcases (count_eq_height hlarge).1 hcount with ⟨hheight, hvalid⟩
  have hroom := Nat.lt_of_lt_of_le hi (capacity_mono hsize)
  have hfit := slotOffset_lt hroom
  rw [slotOffset_eq] at hfit
  have hlook : Act.look count page = .ok n page := Act.look_of_ok hcount
  by_cases hgap : n < i
  · refine .inl ⟨hgap, ?_⟩
    simp only [setPageAt, if_neg (Nat.not_le.2 hi)]
    rw [Act.bind_of_ok hlook]
    simp only [if_pos hgap]
    rfl
  · refine .inr ⟨Nat.not_lt.1 hgap, ?_⟩
    rcases writeWord_ok data hfit (by omega) (by omega) with ⟨page₁, hwrite, hwrote⟩
    rw [← slotOffset_eq] at hwrite
    have hrun : setPageAt i data size page =
        (if i = n then setCount (n + 1) else pure ()) page₁ := by
      simp only [setPageAt, if_neg (Nat.not_le.2 hi)]
      rw [Act.bind_of_ok hlook]
      simp only [if_neg hgap]
      rw [Act.bind_of_ok hwrite]
    rw [hrun]
    by_cases htop : i = n
    · simp only [if_pos htop]
      refine hwrote.counted (by omega) hlarge (by omega) ?_
      -- the slot is a new one, and the count, cut to 16 bits, counts it
      have hmod := Nat.mod_le (n + 1) (2 ^ 16)
      omega
    · simp only [if_neg htop]
      exact ⟨page₁, rfl, hheight ▸ hwrote⟩

/-- What emptying a slot comes to once the slot was found in use and was read. -/
theorem removeAt_eq (data : PageId) (hcount : count page = .ok n) (hi : i < n)
    (hholds : pageAt page i = .ok v) :
    removeAt i data page =
      if v ≠ data then .ok false page
      else if i + 1 ≠ n then .error (.invalid .removalNotLast) page
      else (do Field.writeU64 (slotOffset i) 0; setCount i; return true : Act Bytes Bool) page := by
  have hlook : Act.look count page = .ok n page := Act.look_of_ok hcount
  have hpage : Act.look (pageAt · i) page = .ok v page := Act.look_of_ok hholds
  rw [removeAt, Act.bind_of_ok hlook]
  simp only [if_neg (Nat.not_le.2 hi)]
  rw [Act.bind_of_ok hpage]
  by_cases hdata : v = data
  · by_cases hlast : i + 1 = n
    · simp only [ne_eq, hdata, hlast, not_true_eq_false, if_false]
    · simp only [ne_eq, hdata, hlast, not_true_eq_false, not_false_eq_true, if_true, if_false]
      rfl
  · simp only [ne_eq, hdata, not_false_eq_true, if_true]
    rfl

/-- A slot is emptied if it is the last one and holds the page number; where it is not the last one
this is refused, and otherwise nothing is done. -/
theorem removeAt_cases (i : Nat) (data : PageId) (hlarge : minPageSize ≤ page.length)
    (hcount : count page = .ok n) :
    ((i < n → word page (5 + i) ≠ bytesOfU64 data) ∧
        discard (removeAt i data) page = .ok () page) ∨
      (i + 1 < n ∧ pageAt page i = .ok data ∧
        discard (removeAt i data) page = .error (.invalid .removalNotLast) page) ∨
      i + 1 = n ∧ word page (5 + i) = bytesOfU64 data ∧
        ∃ page', discard (removeAt i data) page = .ok () page' ∧ Wrote page (5 + i) 0 i page' := by
  rcases (count_eq_height hlarge).1 hcount with ⟨hheight, hvalid⟩
  by_cases hi : i < n
  · have hholds := pageAt_eq hlarge hcount hi
    have hremove := removeAt_eq data hcount hi hholds
    by_cases hdata : Bytes.toU64 (word page (5 + i)) = data
    · rw [if_neg (not_not.2 hdata)] at hremove
      rw [hdata] at hholds
      have hword := (pageAt_eq_ok hlarge hcount hi).1 hholds
      right
      by_cases hlast : i + 1 = n
      · right
        -- the slot is the last and holds the page: it is cleared, and then counted no more
        have hfit := slotOffset_lt (Nat.lt_of_lt_of_le hi hvalid)
        rw [slotOffset_eq] at hfit
        rcases writeWord_ok 0 hfit (by omega) (by omega) with ⟨page₁, hwrite, hwrote⟩
        rw [← slotOffset_eq] at hwrite
        have hlow : i % 2 ^ 16 = i := by
          have hlt := height_lt page
          exact Nat.mod_eq_of_lt (by omega)
        rcases hwrote.counted (k := i) (by omega) hlarge (by omega) (by omega) with
          ⟨page₂, hset, hwrote₂⟩
        rw [hlow] at hwrote₂
        rw [if_neg (not_not.2 hlast), Act.bind_of_ok hwrite, Act.bind_of_ok hset] at hremove
        exact ⟨hlast, hword, page₂, Act.discard_of_ok hremove, hwrote₂⟩
      · left
        rw [if_pos hlast] at hremove
        exact ⟨by omega, hholds, Act.map_of_error hremove⟩
    · left
      rw [if_pos hdata] at hremove
      refine ⟨fun _ hword => hdata ?_, Act.discard_of_ok hremove⟩
      rw [hword, Bytes.toU64_bytesOfU64]
  · refine .inl ⟨fun h => absurd h hi, Act.discard_of_ok (a := false) ?_⟩
    -- behind the count there is no slot to look at
    have hlook : Act.look count page = .ok n page := Act.look_of_ok hcount
    rw [removeAt, Act.bind_of_ok hlook]
    simp only [if_pos (Nat.not_lt.1 hi)]
    rfl

end Wrote

end Node

/-! ### Records on pages -/

/-- The page is one that the change is about, of a group whose pages have `size` bytes. -/
structure PageDelta.Fits (d : PageDelta) (m : Memory) (size : Nat) (page : Bytes) : Prop where
  pageSize : m.pageSize d.target.group = .ok size
  room : size ≤ page.length
  format : ∃ f, d.nodeFormat m.formats page = .ok f

namespace PageDelta

variable {d : PageDelta} {m : Memory} {size : Nat} {page page' : Bytes}

theorem Fits.alike (h : d.Fits m size page) (hpage : Node.Alike page page') :
    d.Fits m size page' := by
  refine ⟨h.pageSize, by rw [hpage.length]; exact h.room, ?_⟩
  rcases h.format with ⟨f, hf⟩
  refine ⟨f, ?_⟩
  rw [← hf]
  simp only [nodeFormat, Formats.ofPage, hpage.parse]

/-- A change that does not make the page a node succeeds only on a page that it is about. -/
theorem fits_of_apply (h : (Record.delta d).apply m page = .ok () page')
    (hinit : ∀ prev data, d.change ≠ .init prev data) : ∃ size, d.Fits m size page := by
  rcases Record.apply_eq_ok.1 h with ⟨_, size, ⟨⟩, hsize, hroom, hrest⟩
  refine ⟨size, hsize, hroom, ?_⟩
  have hformat : ∀ {act : Act Bytes Unit},
      (Act.look (d.nodeFormat m.formats) >>= fun _ => act) page = .ok () page' →
        ∃ f, d.nodeFormat m.formats page = .ok f := by
    intro act hact
    rcases Act.bind_eq_ok.1 hact with ⟨f, _, hlook, -⟩
    exact ⟨f, (Act.look_eq_ok.1 hlook).1⟩
  rw [PageDelta.apply] at hrest
  cases hchange : d.change with
  | init prev data => exact absurd hchange (hinit prev data)
  | setNext next =>
    rw [hchange] at hrest
    exact hformat hrest
  | setPrev prev =>
    rw [hchange] at hrest
    exact hformat hrest
  | add slot data =>
    rw [hchange] at hrest
    exact hformat hrest
  | remove slot data =>
    rw [hchange] at hrest
    exact hformat hrest

theorem Fits.apply_setNext {next : PageId} (h : d.Fits m size page)
    (hd : d.change = .setNext next) :
    (Record.delta d).apply m page = Node.setNext next page := by
  rcases h.format with ⟨f, hf⟩
  rw [Record.apply_delta h.pageSize h.room rfl, PageDelta.apply, hd]
  exact Act.bind_of_ok (Act.look_of_ok hf)

theorem Fits.apply_setPrev {prev : PageId} (h : d.Fits m size page)
    (hd : d.change = .setPrev prev) :
    (Record.delta d).apply m page = Node.setPrev prev page := by
  rcases h.format with ⟨f, hf⟩
  rw [Record.apply_delta h.pageSize h.room rfl, PageDelta.apply, hd]
  exact Act.bind_of_ok (Act.look_of_ok hf)

theorem Fits.apply_add {slot : UInt16} {data : PageId} (h : d.Fits m size page)
    (hd : d.change = .add slot data) :
    (Record.delta d).apply m page = Node.setPageAt slot.toNat data size page := by
  rcases h.format with ⟨f, hf⟩
  rw [Record.apply_delta h.pageSize h.room rfl, PageDelta.apply, hd]
  exact Act.bind_of_ok (Act.look_of_ok hf)

theorem Fits.apply_remove {slot : UInt16} {data : PageId} (h : d.Fits m size page)
    (hd : d.change = .remove slot data) :
    (Record.delta d).apply m page = discard (Node.removeAt slot.toNat data) page := by
  rcases h.format with ⟨f, hf⟩
  rw [Record.apply_delta h.pageSize h.room rfl, PageDelta.apply, hd]
  exact Act.bind_of_ok (Act.look_of_ok hf)

end PageDelta

end PageLog
