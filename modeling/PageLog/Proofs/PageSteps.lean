import PageLog.Proofs.NodePages

/-!
# What steps on the bytes of a page leave behind

No step on a page changes how many bytes the page has, whether it succeeds or fails, and a record
that cannot be applied leaves the page as it is.  A change of a blank page can be carried out only
if it makes the page a node; then the outcome is the same on every page of this size, whatever
stood there, and otherwise the page stays blank.

## Main definitions

* `Act.Steady` — a step that keeps the length of a page.
* `Act.Harmless` — a step that leaves a page as it is if it fails.

## Main results

* `Record.steady_apply` — records keep the length of pages.
* `Record.harmless_apply` — records that cannot be applied leave no trace.
* `PageDelta.apply_blank` — changes of a blank page.
-/

namespace PageLog

/-! ### Lengths -/

namespace Act

variable {α β : Type}

/-- The step keeps the length of a page, whether it succeeds or fails. -/
structure Steady (x : Act Bytes α) : Prop where
  /-- The page is as long as before. -/
  length : ∀ page, (x.left page).length = page.length

theorem steady_pure (a : α) : (pure a : Act Bytes α).Steady := ⟨fun _ => rfl⟩

theorem steady_throw (e : Error) : (throw e : Act Bytes α).Steady := ⟨fun _ => rfl⟩

theorem steady_get : (get : Act Bytes Bytes).Steady := ⟨fun _ => rfl⟩

theorem steady_look (f : Bytes → Result α) : (look f).Steady := by
  refine ⟨fun page => ?_⟩
  unfold left look
  cases f page <;> rfl

theorem steady_ofResult (r : Result α) : (ofResult r : Act Bytes α).Steady := by
  refine ⟨fun page => ?_⟩
  cases r <;> rfl

theorem Steady.bind {x : Act Bytes α} {f : α → Act Bytes β} (hx : x.Steady)
    (hf : ∀ a, (f a).Steady) : (x >>= f).Steady := by
  refine ⟨fun page => ?_⟩
  have hfirst := hx.length page
  cases h : x page with
  | ok a page₁ =>
    rw [left_of_ok h] at hfirst
    rw [left_bind_of_ok h, (hf a).length, hfirst]
  | error e page₁ =>
    rw [left_of_error h] at hfirst
    rw [left_bind_of_error h, hfirst]

theorem Steady.discard {x : Act Bytes α} (hx : x.Steady) : (discard x).Steady :=
  hx.bind fun _ => steady_pure _

theorem steady_ite {c : Prop} [Decidable c] {x y : Act Bytes α} (hx : x.Steady) (hy : y.Steady) :
    (if c then x else y).Steady := by
  split
  · exact hx
  · exact hy

end Act

theorem Field.steady_write (off : Nat) (data : Bytes) : (Field.write off data).Steady := by
  refine ⟨fun page => ?_⟩
  by_cases hfit : off + data.length ≤ page.length
  · rw [Act.left_of_ok (Field.write_eq_ok hfit), Bytes.length_overwrite hfit]
  · rw [Act.left_of_error (Field.write_refused (Nat.not_le.1 hfit))]

theorem PageHeader.steady_write (header : PageHeader) : header.write.Steady :=
  (Field.steady_write ..).bind fun _ => (Field.steady_write ..).bind fun _ =>
    (Field.steady_write ..).bind fun _ => Field.steady_write ..

namespace Node

theorem steady_format (header : PageHeader) (pageSize : Nat) :
    (format header pageSize).Steady := by
  refine ⟨fun page => ?_⟩
  by_cases hsmall : pageSize < minPageSize ∨ page.length < pageSize
  · have hrefused : format header pageSize page = .error (.invalid .bufferBelowPageSize) page := by
      rw [format, Act.get_bind]
      simp only [if_pos hsmall]
      rfl
    rw [Act.left_of_error hrefused]
  · have hfit : 0 + (Bytes.zeros pageSize).length ≤ page.length := by
      rw [Bytes.length_zeros]
      omega
    have hblanked : format header pageSize page =
        header.write (Bytes.overwrite page 0 (Bytes.zeros pageSize)) := by
      rw [format, Act.get_bind]
      simp only [if_neg hsmall]
      rfl
    rw [Act.left, hblanked, ← Act.left, header.steady_write.length, Bytes.length_overwrite hfit]

theorem steady_setPageAt (idx : Nat) (data : PageId) (pageSize : Nat) :
    (setPageAt idx data pageSize).Steady := by
  refine Act.steady_ite (Act.steady_throw _) ((Act.steady_look _).bind fun n => ?_)
  refine Act.steady_ite (Act.steady_throw _) ((Field.steady_write ..).bind fun _ => ?_)
  exact Act.steady_ite (Field.steady_write ..) (Act.steady_pure _)

theorem steady_addWithin (limit : Nat) (data : PageId) (pageSize : Nat) :
    (addWithin limit data pageSize).Steady := by
  refine (Act.steady_look _).bind fun n => Act.steady_ite (Act.steady_throw _) ?_
  exact (steady_setPageAt ..).bind fun _ => Act.steady_pure _

theorem steady_removeAt (idx : Nat) (data : PageId) : (removeAt idx data).Steady := by
  refine (Act.steady_look _).bind fun n => Act.steady_ite (Act.steady_pure _) ?_
  refine (Act.steady_look _).bind fun found => Act.steady_ite (Act.steady_pure _) ?_
  refine Act.steady_ite (Act.steady_throw _) ((Field.steady_write ..).bind fun _ => ?_)
  exact (Field.steady_write ..).bind fun _ => Act.steady_pure _

end Node

theorem NodeFormat.steady_initNewPage (f : NodeFormat) (page : PageId) (pageSize : Nat) :
    (f.initNewPage page pageSize).Steady :=
  Act.steady_ite (PageHeader.steady_write _) (Node.steady_format ..)

namespace PageDelta

theorem steady_initNode (target : PageTarget) (format : NodeFormat) (prev data : PageId)
    (pageSize : Nat) : (initNode target format prev data pageSize).Steady := by
  refine (format.steady_initNewPage ..).bind fun _ => (Field.steady_write ..).bind fun _ => ?_
  refine Act.steady_ite ((Act.steady_look _).bind fun count => ?_) (Act.steady_pure _)
  exact Act.steady_ite (Act.steady_throw _) (Node.steady_addWithin ..).discard

theorem steady_onCopy (size : Nat) {act : Act Bytes Unit} (hact : act.Steady) :
    (onCopy size act).Steady := by
  refine ⟨fun page => ?_⟩
  have hcopy := hact.length (page.take size)
  unfold Act.left onCopy
  cases h : act (page.take size) with
  | error e fresh => rfl
  | ok u fresh =>
    rw [Act.left_of_ok h] at hcopy
    simp only [List.length_append, hcopy, List.length_take, List.length_drop]
    omega

theorem steady_apply (d : PageDelta) (formats : Formats) (pageSize : Nat) :
    (d.apply formats pageSize).Steady := by
  unfold apply
  cases d.change with
  | init prev data =>
    exact (Act.steady_ofResult _).bind fun format => steady_onCopy _ (steady_initNode ..)
  | setNext next => exact (Act.steady_look _).bind fun _ => Field.steady_write ..
  | setPrev prev => exact (Act.steady_look _).bind fun _ => Field.steady_write ..
  | add slot data => exact (Act.steady_look _).bind fun _ => Node.steady_setPageAt ..
  | remove slot data => exact (Act.steady_look _).bind fun _ => (Node.steady_removeAt ..).discard

end PageDelta

/-- Whatever a record does to a page, the page keeps its length. -/
theorem Record.steady_apply (r : Record) (m : Memory) : (r.apply m).Steady := by
  unfold apply
  cases r with
  | snapshot id full => exact Act.steady_throw _
  | checkpoint id => exact Act.steady_throw _
  | delta d =>
    refine (Act.steady_ofResult _).bind fun pageSize => Act.steady_get.bind fun page => ?_
    exact Act.steady_ite (Act.steady_throw _) (d.steady_apply ..)

/-! ### Failures -/

namespace Act

variable {α β : Type} {page : Bytes}

/-- The step leaves the page as it is if it fails. -/
structure Harmless (x : Act Bytes α) (page : Bytes) : Prop where
  /-- The page is as before. -/
  kept : ∀ {e page'}, x page = .error e page' → page' = page

theorem harmless_pure (a : α) : (pure a : Act Bytes α).Harmless page := by
  constructor
  intro e page' h
  cases h

theorem harmless_throw (e : Error) : (throw e : Act Bytes α).Harmless page := by
  constructor
  intro e' page' h
  cases h
  rfl

theorem harmless_look_bind {f : Bytes → Result α} {k : α → Act Bytes β}
    (hk : ∀ a, f page = .ok a → (k a).Harmless page) : (look f >>= k).Harmless page := by
  constructor
  intro e page' h
  cases hf : f page with
  | ok a =>
    rw [bind_of_ok (look_of_ok hf)] at h
    exact (hk a hf).kept h
  | error e₁ =>
    rw [bind_of_error (look_of_error hf)] at h
    cases h
    rfl

theorem harmless_ofResult_bind {r : Result α} {k : α → Act Bytes β}
    (hk : ∀ a, (k a).Harmless page) : (ofResult r >>= k).Harmless page := by
  cases r with
  | ok a => exact hk a
  | error e => exact harmless_throw e

/-- What follows must not fail where the step has changed the page. -/
theorem Harmless.bind {x : Act Bytes α} {k : α → Act Bytes β} (hx : x.Harmless page)
    (hk : ∀ a page₁, x page = .ok a page₁ → ∃ b page₂, k a page₁ = .ok b page₂) :
    (x >>= k).Harmless page := by
  constructor
  intro e page' h
  cases hrun : x page with
  | ok a page₁ =>
    obtain ⟨b, page₂, hrest⟩ := hk a page₁ hrun
    rw [bind_of_ok hrun, hrest] at h
    cases h
  | error e₁ page₁ =>
    rw [bind_of_error hrun] at h
    cases h
    exact hx.kept hrun

theorem Harmless.discard {x : Act Bytes α} (hx : x.Harmless page) :
    (discard x).Harmless page :=
  hx.bind fun _ page₁ _ => ⟨_, page₁, rfl⟩

theorem harmless_ite {c : Prop} [Decidable c] {x y : Act Bytes α} (hx : x.Harmless page)
    (hy : y.Harmless page) : (if c then x else y).Harmless page := by
  split
  · exact hx
  · exact hy

end Act

theorem Field.harmless_write (off : Nat) (data : Bytes) (page : Bytes) :
    (Field.write off data).Harmless page := by
  constructor
  intro e page' h
  unfold Field.write at h
  split at h
  · cases h
  · cases h
    rfl

namespace Node

variable {page : Bytes} {n : Nat}

/-- Where a count was read, a count can be written, also behind another write. -/
theorem setCount_total {page₁ : Bytes} {off : Nat} {data : Bytes} (hcount : count page = .ok n)
    (hwrite : Field.write off data page = .ok () page₁) (k : Nat) :
    ∃ page₂, setCount k page₁ = .ok () page₂ := by
  have hlength := (Field.steady_write off data).length page
  rw [Act.left_of_ok hwrite] at hlength
  have hread := (count_eq_ok.1 hcount).1
  have hroom : countOffset + 2 ≤ page.length := by
    by_contra hshort
    simp only [Field.readU16, Field.read, Bytes.window_eq_none (Nat.not_le.1 hshort)] at hread
    cases hread
  exact ⟨_, Field.writeU16_ok (by rwa [hlength])⟩

theorem harmless_setPageAt (idx : Nat) (data : PageId) (pageSize : Nat) :
    (setPageAt idx data pageSize).Harmless page := by
  refine Act.harmless_ite (Act.harmless_throw _) (Act.harmless_look_bind fun n hcount => ?_)
  refine Act.harmless_ite (Act.harmless_throw _) ((Field.harmless_write ..).bind ?_)
  intro _ page₁ hwrite
  by_cases htop : idx = n
  · simp only [if_pos htop]
    exact ⟨(), setCount_total hcount hwrite (n + 1)⟩
  · simp only [if_neg htop]
    exact ⟨_, page₁, rfl⟩

theorem harmless_removeAt (idx : Nat) (data : PageId) : (removeAt idx data).Harmless page := by
  refine Act.harmless_look_bind fun n hcount => Act.harmless_ite (Act.harmless_pure _) ?_
  refine Act.harmless_look_bind fun found _ => Act.harmless_ite (Act.harmless_pure _) ?_
  refine Act.harmless_ite (Act.harmless_throw _) ((Field.harmless_write ..).bind ?_)
  intro _ page₁ hwrite
  obtain ⟨page₂, hset⟩ := setCount_total hcount hwrite idx
  exact ⟨true, page₂, Act.bind_of_ok hset⟩

end Node

theorem PageDelta.harmless_onCopy (size : Nat) (act : Act Bytes Unit) (page : Bytes) :
    (onCopy size act).Harmless page := by
  constructor
  intro e page' h
  unfold onCopy at h
  split at h
  · cases h
  · cases h
    rfl

theorem PageDelta.harmless_apply (d : PageDelta) (formats : Formats) (pageSize : Nat)
    (page : Bytes) : (d.apply formats pageSize).Harmless page := by
  unfold apply
  cases d.change with
  | init prev data => exact Act.harmless_ofResult_bind fun format => harmless_onCopy ..
  | setNext next => exact Act.harmless_look_bind fun _ _ => Field.harmless_write ..
  | setPrev prev => exact Act.harmless_look_bind fun _ _ => Field.harmless_write ..
  | add slot data => exact Act.harmless_look_bind fun _ _ => Node.harmless_setPageAt ..
  | remove slot data =>
    exact Act.harmless_look_bind fun _ _ => (Node.harmless_removeAt ..).discard

/-- A record that cannot be applied to a page leaves no trace on it. -/
theorem Record.harmless_apply (r : Record) (m : Memory) (page : Bytes) :
    (r.apply m).Harmless page := by
  unfold apply
  cases r with
  | snapshot id full => exact Act.harmless_throw _
  | checkpoint id => exact Act.harmless_throw _
  | delta d =>
    refine Act.harmless_ofResult_bind fun pageSize => ⟨fun h => ?_⟩
    rw [Act.get_bind] at h
    exact (Act.harmless_ite (Act.harmless_throw _) (d.harmless_apply ..)).kept h

/-! ### Blank pages -/

theorem Formats.eq_v1_of_lookup {ioType ioVersion : UInt16} {f : NodeFormat}
    (h : standard.lookup ioType ioVersion = .ok f) : f = .v1 := by
  unfold lookup at h
  split at h
  · cases h
  · split at h
    · rename_i hfound
      cases h
      exact List.mem_singleton.1 (List.mem_of_find?_eq_some hfound)
    · cases h

namespace PageDelta

variable {d : PageDelta} {size : Nat} {page : Bytes}

/-- A blank page carries no format. -/
theorem nodeFormat_blank (d : PageDelta) (formats : Formats) (hsize : minPageSize ≤ size) :
    ∃ e, d.nodeFormat formats (Bytes.zeros size) = .error e := by
  obtain ⟨e, hformat⟩ := formats.ofPage_blank size
  refine ⟨e, ?_⟩
  rw [nodeFormat, PageHeader.parse_zeros (Nat.le_trans (by decide) hsize), hformat]
  rfl

/-- Making a page a node of the first version begins by blanking it. -/
theorem initNode_v1 (target : PageTarget) (prev data : PageId) (hsize : minPageSize ≤ size)
    (hpage : page.length = size) :
    initNode target .v1 prev data size page =
      initNode target .v1 prev data size (Bytes.zeros size) := by
  have hblanked : ∀ page : Bytes, page.length = size →
      NodeFormat.v1.initNewPage target.page size page =
        PageHeader.write ⟨nodeType, 1, target.page⟩ (Bytes.zeros size) := by
    intro page hpage
    exact NodeView.format_eq hsize hpage _
  rw [initNode, Act.bind_apply, Act.bind_apply, hblanked page hpage,
    hblanked _ (Bytes.length_zeros size)]

/-- A step on a copy of a whole page. -/
theorem onCopy_ok {act : Act Bytes Unit} {fresh : Bytes} (hpage : page.length = size)
    (hact : act page = .ok () fresh) : onCopy size act page = .ok () fresh := by
  rw [onCopy, List.take_of_length_le (Nat.le_of_eq hpage),
    List.drop_eq_nil_of_le (Nat.le_of_eq hpage), hact]
  simp only [List.append_nil]

theorem onCopy_error {act : Act Bytes Unit} {e : Error} {fresh : Bytes} (hpage : page.length = size)
    (hact : act page = .error e fresh) : onCopy size act page = .error e page := by
  rw [onCopy, List.take_of_length_le (Nat.le_of_eq hpage), hact]

/-- The only change of a blank page that can be carried out makes it a node, and then it makes any
page of this size the same node. -/
theorem apply_blank (d : PageDelta) (hsize : minPageSize ≤ size) :
    (∃ e, d.apply .standard size (Bytes.zeros size) = .error e (Bytes.zeros size)) ∨
      ∃ fresh, ∀ page : Bytes, page.length = size → d.apply .standard size page = .ok () fresh := by
  obtain ⟨e, hformat⟩ := d.nodeFormat_blank .standard hsize
  have hrefused : Act.look (d.nodeFormat .standard) (Bytes.zeros size) =
      .error e (Bytes.zeros size) := Act.look_of_error hformat
  unfold apply
  cases d.change with
  | setNext next => exact .inl ⟨e, Act.bind_of_error hrefused⟩
  | setPrev prev => exact .inl ⟨e, Act.bind_of_error hrefused⟩
  | add slot data => exact .inl ⟨e, Act.bind_of_error hrefused⟩
  | remove slot data => exact .inl ⟨e, Act.bind_of_error hrefused⟩
  | init prev data =>
    simp only
    cases hlookup : Formats.standard.lookup d.target.ioType d.target.ioVersion with
    | error e => exact .inl ⟨e, Act.bind_of_error rfl⟩
    | ok format =>
      obtain rfl := Formats.eq_v1_of_lookup hlookup
      -- blanking the page makes an end of whatever stood on it, so the blank page tells them all
      cases hinit : initNode d.target .v1 prev data size (Bytes.zeros size) with
      | error e fresh => exact .inl ⟨e, onCopy_error (Bytes.length_zeros size) hinit⟩
      | ok u fresh =>
        refine .inr ⟨fresh, fun page hpage => onCopy_ok hpage ?_⟩
        rw [initNode_v1 _ _ _ hsize hpage, hinit]

end PageDelta
end PageLog
