import PageLog.Proofs.PageSteps
import PageLog.Proofs.PageWords

/-!
# What changes may touch

A change of a node names the page and the format that it was made for, and is carried out only on
pages whose header says the same, in whichever known version of the format.  What it writes is the
field it is about, for slots also the count; every other byte of the page stays, whatever the page
holds and however long it is.

## Main definitions

* `PageDelta.Names` — the header of the page is the one that the change was made for.
* `PageChange.Covers` — the bytes that a change is about.
* `Act.Spares` — a step that leaves bytes alone.

## Main results

* `Formats.OfNodes.registerAll` — only formats of nodes are known.
* `PageDelta.nodeFormat_iff` — when a page is one that a change is about.
* `PageDelta.spares_apply` — changes write only the bytes that they are about.
* `Record.applies_or_leaves_no_trace` — **a record is applied where it belongs, or leaves no
  trace**.
-/

namespace PageLog

/-! ### Formats -/

namespace Formats

theorem mem_insertInOrder {f g : NodeFormat} {gs : List NodeFormat} :
    f ∈ insertInOrder g gs ↔ f = g ∨ f ∈ gs := by
  induction gs with
  | nil => simp [insertInOrder]
  | cons h gs ih =>
    rw [insertInOrder]
    split
    · simp
    · simp only [List.mem_cons, ih]
      tauto

/-- All known formats are formats of nodes. -/
def OfNodes (fs : Formats) : Prop := ∀ f ∈ fs.nodes, f.ioType = nodeType

theorem OfNodes.register {fs fs' : Formats} {f : NodeFormat} (hfs : fs.OfNodes)
    (h : fs.register f = .ok fs') : fs'.OfNodes := by
  unfold Formats.register at h
  split at h
  · cases h
  · rename_i htype
    split at h
    · cases h
    · cases h
      intro g hg
      rcases mem_insertInOrder.1 hg with rfl | hg
      · exact not_not.1 htype
      · exact hfs g hg

theorem OfNodes.registerAll {fs : Formats} (hfs : fs.OfNodes) (more : List NodeFormat) :
    (fs.registerAll more).2.OfNodes := by
  induction more generalizing fs with
  | nil => exact hfs
  | cons f more ih =>
    rw [Formats.registerAll]
    cases h : fs.register f with
    | ok fs' => exact ih (hfs.register h)
    | error e => exact ih hfs

theorem ofNodes_standard : standard.OfNodes := by
  intro f hf
  rw [List.mem_singleton.1 hf]
  rfl

/-- A format is found just under its own version. -/
theorem lookup_iff {fs : Formats} (hfs : fs.OfNodes) {ioType ioVersion : UInt16} :
    (∃ f, fs.lookup ioType ioVersion = .ok f) ↔
      ∃ f ∈ fs.nodes, f.ioType = ioType ∧ f.version = ioVersion := by
  unfold lookup
  constructor
  · rintro ⟨f, h⟩
    split at h
    · cases h
    · rename_i htype
      split at h
      · rename_i g hfound
        have hmem := List.mem_of_find?_eq_some hfound
        have hversion := List.find?_some hfound
        refine ⟨g, hmem, ?_, by simpa using hversion⟩
        rw [hfs g hmem, not_not.1 htype]
      · cases h
  · rintro ⟨f, hmem, rfl, rfl⟩
    have hfound : (fs.nodes.find? (·.version == f.version)).isSome := by
      rw [List.find?_isSome]
      exact ⟨f, hmem, by simp⟩
    obtain ⟨g, hg⟩ := Option.isSome_iff_exists.1 hfound
    exact ⟨g, by simp [hfs f hmem, hg]⟩

end Formats

/-! ### Pages that a change is about -/

/-- The page is one that the change was made for: its header names the page and a known format,
which are those of the change. -/
structure PageDelta.Names (d : PageDelta) (formats : Formats) (page : Bytes) : Prop where
  /-- The header of the page. -/
  header : PageHeader.parse page = .ok ⟨d.target.ioType, d.target.ioVersion, d.target.page⟩
  /-- Its format is known. -/
  known : ∃ f ∈ formats.nodes, f.ioType = d.target.ioType ∧ f.version = d.target.ioVersion

theorem PageDelta.nodeFormat_iff {d : PageDelta} {formats : Formats} {page : Bytes}
    (hfs : formats.OfNodes) :
    (∃ f, d.nodeFormat formats page = .ok f) ↔ d.Names formats page := by
  unfold nodeFormat Formats.ofPage
  constructor
  · rintro ⟨f, h⟩
    cases hparse : PageHeader.parse page with
    | error e =>
      rw [hparse] at h
      cases h
    | ok header =>
      simp only [hparse, bind, Except.bind] at h
      split at h
      · cases h
      rename_i g hlookup
      split at hlookup
      · cases hlookup
      split at h
      · cases h
      rename_i hformat
      split at h
      · cases h
      rename_i hpage
      simp only [ne_eq, not_or, not_not] at hformat hpage
      obtain ⟨htype, hversion⟩ := hformat
      refine ⟨?_, ?_⟩
      · rw [hparse, ← htype, ← hversion, ← hpage]
      · rw [← htype, ← hversion]
        exact (Formats.lookup_iff hfs).1 ⟨g, hlookup⟩
  · rintro ⟨hparse, hknown⟩
    obtain ⟨g, hlookup⟩ := (Formats.lookup_iff hfs).2 hknown
    obtain ⟨f, hmem, htype, -⟩ := hknown
    -- a format of nodes is never that of pages without one
    have hformatted : d.target.ioType ≠ unformattedType := by
      rw [← htype, hfs f hmem]
      decide
    refine ⟨g, ?_⟩
    simp only [hparse, bind, Except.bind, hformatted, if_false, hlookup, ne_eq, not_true_eq_false,
      or_self]
    rfl

/-! ### Bytes that a step leaves alone -/

namespace Act

variable {α β : Type} {covers : Nat → Prop}

/-- The step leaves alone all bytes that are not covered, whether it succeeds or fails. -/
structure Spares (covers : Nat → Prop) (x : Act Bytes α) : Prop where
  /-- The other bytes are as before. -/
  kept : ∀ page i, ¬covers i → (x.left page)[i]? = page[i]?

theorem spares_pure (a : α) : (pure a : Act Bytes α).Spares covers := ⟨fun _ _ _ => rfl⟩

theorem spares_throw (e : Error) : (throw e : Act Bytes α).Spares covers := ⟨fun _ _ _ => rfl⟩

theorem spares_look (f : Bytes → Result α) : (look f).Spares covers := by
  refine ⟨fun page i _ => ?_⟩
  unfold left look
  cases f page <;> rfl

theorem spares_ofResult (r : Result α) : (ofResult r : Act Bytes α).Spares covers := by
  refine ⟨fun page i _ => ?_⟩
  cases r <;> rfl

theorem Spares.bind {x : Act Bytes α} {f : α → Act Bytes β} (hx : x.Spares covers)
    (hf : ∀ a, (f a).Spares covers) : (x >>= f).Spares covers := by
  refine ⟨fun page i hi => ?_⟩
  have hfirst := hx.kept page i hi
  cases h : x page with
  | ok a page₁ =>
    rw [left_of_ok h] at hfirst
    rw [left_bind_of_ok h, (hf a).kept page₁ i hi, hfirst]
  | error e page₁ =>
    rw [left_of_error h] at hfirst
    rw [left_bind_of_error h, hfirst]

theorem Spares.discard {x : Act Bytes α} (hx : x.Spares covers) : (discard x).Spares covers :=
  hx.bind fun _ => spares_pure _

theorem spares_ite {c : Prop} [Decidable c] {x y : Act Bytes α} (hx : x.Spares covers)
    (hy : y.Spares covers) : (if c then x else y).Spares covers := by
  split
  · exact hx
  · exact hy

end Act

theorem Field.spares_write {covers : Nat → Prop} {off : Nat} {data : Bytes}
    (hcovers : ∀ i, off ≤ i → i < off + data.length → covers i) :
    (Field.write off data).Spares covers := by
  refine ⟨fun page i hi => ?_⟩
  by_cases hfit : off + data.length ≤ page.length
  · have hout : ¬(off ≤ i ∧ i < off + data.length) := fun h => hi (hcovers i h.1 h.2)
    rw [Act.left_of_ok (Field.write_eq_ok hfit), Bytes.getElem?_overwrite (by omega)]
    split
    · rfl
    · rw [if_neg (by omega)]
  · rw [Act.left_of_error (Field.write_refused (Nat.not_le.1 hfit))]

/-- The bytes that a change of a page of `size` bytes is about: the whole page if it becomes a node,
otherwise a field, and for a slot the count as well. -/
def PageChange.Covers (size : Nat) : PageChange → Nat → Prop
  | .init _ _, i => i < size
  | .setNext _, i => Node.nextOffset ≤ i ∧ i < Node.nextOffset + 8
  | .setPrev _, i => Node.prevOffset ≤ i ∧ i < Node.prevOffset + 8
  | .add slot _, i | .remove slot _, i =>
      (Node.slotOffset slot.toNat ≤ i ∧ i < Node.slotOffset slot.toNat + Node.slotSize) ∨
        (Node.countOffset ≤ i ∧ i < Node.countOffset + 2)

namespace Node

variable {covers : Nat → Prop} {idx : Nat}

theorem spares_setCount (n : Nat)
    (hcount : ∀ i, countOffset ≤ i ∧ i < countOffset + 2 → covers i) :
    (setCount n).Spares covers :=
  Field.spares_write fun i hi hi' => hcount i ⟨hi, by rwa [length_bytesOfU16] at hi'⟩

theorem spares_writeSlot (v : UInt64)
    (hslot : ∀ i, slotOffset idx ≤ i ∧ i < slotOffset idx + slotSize → covers i) :
    (Field.writeU64 (slotOffset idx) v).Spares covers :=
  Field.spares_write fun i hi hi' => hslot i ⟨hi, by rwa [length_bytesOfU64] at hi'⟩

theorem spares_setPageAt (data : PageId) (pageSize : Nat)
    (hslot : ∀ i, slotOffset idx ≤ i ∧ i < slotOffset idx + slotSize → covers i)
    (hcount : ∀ i, countOffset ≤ i ∧ i < countOffset + 2 → covers i) :
    (setPageAt idx data pageSize).Spares covers := by
  refine Act.spares_ite (Act.spares_throw _) ((Act.spares_look _).bind fun n => ?_)
  refine Act.spares_ite (Act.spares_throw _) ((spares_writeSlot data hslot).bind fun _ => ?_)
  exact Act.spares_ite (spares_setCount _ hcount) (Act.spares_pure _)

theorem spares_removeAt (data : PageId)
    (hslot : ∀ i, slotOffset idx ≤ i ∧ i < slotOffset idx + slotSize → covers i)
    (hcount : ∀ i, countOffset ≤ i ∧ i < countOffset + 2 → covers i) :
    (removeAt idx data).Spares covers := by
  refine (Act.spares_look _).bind fun n => Act.spares_ite (Act.spares_pure _) ?_
  refine (Act.spares_look _).bind fun found => Act.spares_ite (Act.spares_pure _) ?_
  refine Act.spares_ite (Act.spares_throw _) ((spares_writeSlot 0 hslot).bind fun _ => ?_)
  exact (spares_setCount _ hcount).bind fun _ => Act.spares_pure _

end Node

namespace PageDelta

/-- A step on a copy of the first bytes leaves the others alone. -/
theorem spares_onCopy (size : Nat) {act : Act Bytes Unit} (hact : act.Steady) :
    (onCopy size act).Spares (· < size) := by
  refine ⟨fun page i hi => ?_⟩
  have hcopy := hact.length (page.take size)
  unfold Act.left onCopy
  cases h : act (page.take size) with
  | error e fresh => rfl
  | ok u fresh =>
    rw [Act.left_of_ok h, List.length_take] at hcopy
    simp only
    rw [List.getElem?_append_right (by omega), List.getElem?_drop]
    by_cases hshort : size ≤ page.length
    · congr 1
      omega
    · rw [List.getElem?_eq_none (by omega), List.getElem?_eq_none (by omega)]

/-- A change writes only the bytes that it is about. -/
theorem spares_apply (d : PageDelta) (formats : Formats) (size : Nat) :
    (d.apply formats size).Spares (d.change.Covers size) := by
  unfold apply
  cases d.change with
  | init prev data =>
    exact (Act.spares_ofResult _).bind fun format => spares_onCopy _ (steady_initNode ..)
  | setNext next =>
    refine (Act.spares_look _).bind fun _ => Field.spares_write fun i hi hi' => ⟨hi, ?_⟩
    rwa [length_bytesOfU64] at hi'
  | setPrev prev =>
    refine (Act.spares_look _).bind fun _ => Field.spares_write fun i hi hi' => ⟨hi, ?_⟩
    rwa [length_bytesOfU64] at hi'
  | add slot data =>
    exact (Act.spares_look _).bind fun _ =>
      Node.spares_setPageAt data size (fun _ => .inl) fun _ => .inr
  | remove slot data =>
    exact (Act.spares_look _).bind fun _ =>
      (Node.spares_removeAt data (fun _ => .inl) fun _ => .inr).discard

end PageDelta

/-! ### Records -/

/-- A record that cannot be applied leaves the page as it is.  One that is applied is a change of
the page: it touches no byte but those it is about, and unless it makes the page a node, the page's
own header names the page and the format that the change was made for. -/
theorem Record.applies_or_leaves_no_trace {m : Memory} {more : List NodeFormat}
    (hformats : m.formats = (Formats.standard.registerAll more).2) (r : Record) (page : Bytes) :
    match r.apply m page with
    | .error _ page' => page' = page
    | .ok () page' =>
      ∃ d size, r = .delta d ∧ m.pageSize d.target.group = .ok size ∧ size ≤ page.length ∧
        page'.length = page.length ∧ (∀ i, ¬d.change.Covers size i → page'[i]? = page[i]?) ∧
        ((∀ prev data, d.change ≠ .init prev data) → d.Names m.formats page) := by
  cases h : r.apply m page with
  | error e page' => exact (r.harmless_apply m page).kept h
  | ok u page' =>
    have hlength := (r.steady_apply m).length page
    rw [Act.left_of_ok h] at hlength
    obtain ⟨d, size, rfl, hsize, hroom, happly⟩ := apply_eq_ok.1 h
    refine ⟨d, size, rfl, hsize, hroom, hlength, ?_, ?_⟩
    · intro i hi
      have hkept := (d.spares_apply m.formats size).kept page i hi
      rwa [Act.left_of_ok happly] at hkept
    · intro hinit
      obtain ⟨_, hfits⟩ := PageDelta.fits_of_apply h hinit
      -- only formats of nodes are known, so that the version found is that of the page
      refine (PageDelta.nodeFormat_iff ?_).1 hfits.format
      rw [hformats]
      exact Formats.ofNodes_standard.registerAll more

/-- On a page of a second version, which is longer than the group's pages and has residue in the
reserved bytes and behind the count, a slot is filled. -/
theorem Record.applies_or_leaves_no_trace_of_second_version :
    let more : List NodeFormat := [⟨12, 2, some 1, true⟩]
    let m : Memory := ⟨(Formats.standard.registerAll more).2, (Memory.fresh [(1, 64)]).groups⟩
    let fill : PageDelta := ⟨⟨1, 5, 12, 2⟩, .add 1 8⟩
    let page : Bytes := [0, 12, 0, 2, 9, 9, 9, 9] ++ bytesOfU64 5 ++ bytesOfU64 0 ++ bytesOfU64 3 ++
      [0, 1, 1, 2, 3, 4, 5, 6] ++ bytesOfU64 7 ++ bytesOfU64 255 ++ bytesOfU64 255 ++ [1]
    let filled : Bytes := [0, 12, 0, 2, 9, 9, 9, 9] ++ bytesOfU64 5 ++ bytesOfU64 0 ++
      bytesOfU64 3 ++ [0, 2, 1, 2, 3, 4, 5, 6] ++ bytesOfU64 7 ++ bytesOfU64 8 ++
      bytesOfU64 255 ++ [1]
    (Record.delta fill).apply m page = .ok () filled ∧ fill.Names m.formats page := by
  intro more m fill page filled
  have hfilled : (Record.delta fill).apply m page = .ok () filled := by decide +kernel
  have hall := @applies_or_leaves_no_trace m more rfl (.delta fill) page
  rw [hfilled] at hall
  obtain ⟨d, _, hd, -, -, -, -, hnames⟩ := hall
  cases hd
  exact ⟨hfilled, hnames fun _ _ => nofun⟩

end PageLog
