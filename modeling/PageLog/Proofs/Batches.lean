import PageLog.Proofs.JournalRun

/-!
# Batches are carried out as a whole or not at all

A batch of changes is tried out on copies first.  What fails there leaves the log, the contents of
pages and the marks of changed pages as they were, since nothing but reading was done: reading
brings blank pages into being, which are not marked.  What passes is logged and then carried out,
and cannot fail any more, because what a change does depends on the contents of its page alone.

## Main definitions

* `Memory.KeepsMarks` — a step opens no page for changing.
* `Journal.payloads` — what a batch leaves in the log.
* `Journal.WentThrough`, `Journal.Refused` — what became of a batch.

## Main results

* `keepsMarks_stage` — trying changes out opens no page for changing.
* `Journal.getElem?_assign` — each change gets the pointer to its own frame.
* `batches_all_or_nothing` — **a batch is carried out as a whole or not at all**.
-/

namespace PageLog

/-! ### Marks -/

namespace GroupPages

theorem dirtyPages_eq_toList (g : GroupPages) :
    g.dirtyPages = (g.pages.filterMap fun _ page =>
      if page.dirty then some page.bytes else none).toList := by
  rw [Std.TreeMap.toList_filterMap, dirtyPages]
  congr 1
  funext ⟨id, bytes, dirty⟩
  cases dirty <;> rfl

/-- Touching a page opens none for changing. -/
@[simp] theorem dirtyPages_touch (g : GroupPages) (id : PageId) :
    (g.touch id).2.dirtyPages = g.dirtyPages := by
  unfold touch
  cases hid : g.pages[id]? with
  | some page => rfl
  | none =>
    rw [dirtyPages_eq_toList, dirtyPages_eq_toList]
    refine Std.TreeMap.equiv_iff_toList_eq.1 (Std.TreeMap.Equiv.of_forall_constGet?_eq fun a => ?_)
    simp only [Std.TreeMap.getElem?_filterMap', getElem?_insert]
    by_cases ha : id = a
    · rw [if_pos ha, ← ha, hid]
      rfl
    · rw [if_neg ha]

end GroupPages

namespace Memory

variable {α β : Type}

/-- The step opens no page for changing. -/
def KeepsMarks (act : Act Memory α) : Prop :=
  ∀ m g, (act.left m).dirtyPages g = m.dirtyPages g

theorem keepsMarks_pure (a : α) : KeepsMarks (pure a) := fun _ _ => rfl

theorem KeepsMarks.bind {act : Act Memory α} {next : α → Act Memory β} (h : KeepsMarks act)
    (h' : ∀ a, KeepsMarks (next a)) : KeepsMarks (act >>= next) := by
  intro m g
  have hfirst := h m g
  cases hact : act m with
  | ok a m' =>
    rw [Act.left_of_ok hact] at hfirst
    rw [Act.left_bind_of_ok hact, h' a m' g, hfirst]
  | error e m' =>
    rw [Act.left_of_error hact] at hfirst
    rw [Act.left_bind_of_error hact, hfirst]

theorem keepsMarks_mapError {act : Act Memory α} (f : Error → Error) (h : KeepsMarks act) :
    KeepsMarks (Act.mapError f act) := by
  intro m g
  have hact := h m g
  unfold Act.mapError Act.left at *
  cases hrun : act m with
  | ok a m' => simpa only [hrun] using hact
  | error e m' => simpa only [hrun] using hact

theorem keepsMarks_page (g : GroupId) (id : PageId) : KeepsMarks (page g id) := by
  intro m a
  unfold Act.left
  rw [page_eq]
  by_cases hid : id = PageId.null
  · rw [if_pos hid]
  · rw [if_neg hid]
    cases hg : m.groups[g]? with
    | none => rfl
    | some pages =>
      simp only [dirtyPages, groups_putGroup]
      by_cases ha : g = a
      · rw [if_pos ha, ← ha, hg]
        simp only [GroupPages.dirtyPages_touch]
      · rw [if_neg ha]

end Memory

open Memory

theorem Scratch.keepsMarks_apply (scratch : Scratch) (d : PageDelta) :
    KeepsMarks (scratch.apply d) := by
  refine .bind (keepsMarks_mapError _ ?_) ?_
  · unfold page
    cases scratch.lookup (d.target.group, d.target.page) with
    | some bytes => exact keepsMarks_pure bytes
    | none => exact keepsMarks_page _ _
  · intro bytes m g
    rw [Act.left_get_bind]
    cases (Record.delta d).apply m bytes with
    | ok _ bytes' => rfl
    | error e bytes' => rfl

/-- Trying changes out opens no page for changing. -/
theorem keepsMarks_stage (scratch : Scratch) (ds : List PageDelta) :
    KeepsMarks (stage scratch ds) := by
  induction ds generalizing scratch with
  | nil => exact keepsMarks_pure ()
  | cons d ds ih => exact (scratch.keepsMarks_apply d).bind ih

/-! ### Pointers -/

/-- Bytes that were written among others are found again. -/
theorem Bytes.window_overwrite {bs : Bytes} {off : Nat} (h : off ≤ bs.length)
    (before data behind : Bytes) :
    Bytes.window (Bytes.overwrite bs off (before ++ (data ++ behind))) (off + before.length)
      data.length = some data := by
  have hall : ((Bytes.overwrite bs off (before ++ (data ++ behind))).drop off).take
      (before ++ (data ++ behind)).length = _ := Bytes.slice_overwrite_self h
  have hlen := Bytes.length_overwrite_eq_max (before ++ (data ++ behind)) h
  generalize Bytes.overwrite bs off (before ++ (data ++ behind)) = written at hall hlen ⊢
  simp only [List.length_append] at hlen
  rw [Bytes.window_eq_some (by omega), ← List.drop_drop]
  have hpart := congrArg (fun all => (all.drop before.length).take data.length) hall
  simpa [List.drop_take, List.take_take] using hpart

namespace Journal

variable {j j' : Journal} {bs : Bytes} {rs : List Record}

/-- What a batch of records leaves in the log. -/
def payloads (j : Journal) (rs : List Record) : List Bytes :=
  (j.recordsOf (Record.changes rs)).map Record.encode

theorem length_assign (logged : PageDelta → Bool) (ds : List PageDelta)
    (pointers : List LogPointer) : (assign logged ds pointers).length = ds.length := by
  induction ds generalizing pointers with
  | nil => rfl
  | cons d ds ih =>
    rw [assign]
    split <;> simp [ih]

/-- Each change that left a record gets the pointer to its frame, and no other one does. -/
theorem getElem?_assign (j : Journal) (t : Tail) (ds : List PageDelta) (i : Nat) :
    (assign j.isLogged ds (t.pointers ((j.recordsOf ds).map Record.encode)))[i]? =
      ds[i]?.map fun d => if j.isLogged d then
        some ((t.pushAll ((j.recordsOf (ds.take i)).map Record.encode)).pointer
          (Record.delta d).encode)
      else none := by
  induction ds generalizing t i with
  | nil => simp [assign]
  | cons d ds ih =>
    cases hlogged : j.isLogged d with
    | true =>
      -- the change takes the next pointer
      have hrecords : ∀ ds', j.recordsOf (d :: ds') = .delta d :: j.recordsOf ds' := by
        intro ds'
        rw [recordsOf, List.filter_cons_of_pos hlogged, List.map_cons, recordsOf]
      cases i with
      | zero => simp [assign, hlogged, recordsOf, Tail.pointers]
      | succ i => simp [assign, hlogged, hrecords, Tail.pointers, ih]
    | false =>
      -- the pointers are left to the changes behind
      have hrecords : ∀ ds', j.recordsOf (d :: ds') = j.recordsOf ds' := by
        intro ds'
        rw [recordsOf, List.filter_cons_of_neg (by rw [hlogged]; decide), recordsOf]
      cases i with
      | zero => simp [assign, hlogged]
      | succ i => simp [assign, hlogged, hrecords, ih]

/-- The pointer names the next frame behind the state `t`, which carries the payload and is in the
file with the bytes `bs`. -/
structure Names (t : Tail) (payload bs : Bytes) (p : LogPointer) : Prop where
  lsn : p.lsn = t.nextLsn
  offset : p.offset = t.offset
  frame : Bytes.window bs p.offset p.len = some ((t.header payload).encode ++ payload)

/-- The pointer to a change that left a record names the frame of this record. -/
theorem names_pointer {log : Log} {ds : List PageDelta} {i : Nat} {d : PageDelta}
    (hl : j.log.Ready bs) (hout : j.log.Appended bs ((j.recordsOf ds).map Record.encode) log)
    (hd : ds[i]? = some d) (hlogged : j.isLogged d = true) :
    let t := j.log.writer.tail.pushAll ((j.recordsOf (ds.take i)).map Record.encode)
    Names t (Record.delta d).encode log.disk.file.bytes (t.pointer (Record.delta d).encode) := by
  intro t
  have hsplit : ds = ds.take i ++ d :: ds.drop (i + 1) := by
    rcases List.getElem?_eq_some_iff.1 hd with ⟨hi, rfl⟩
    rw [← List.drop_eq_getElem_cons hi, List.take_append_drop]
  have hrecords : j.recordsOf ds =
      j.recordsOf (ds.take i) ++ .delta d :: j.recordsOf (ds.drop (i + 1)) := by
    conv_lhs => rw [hsplit]
    rw [recordsOf, List.filter_append, List.map_append, List.filter_cons_of_pos hlogged]
    rfl
  refine ⟨rfl, rfl, ?_⟩
  -- the frame stands between those before and those behind
  have hthere := Bytes.window_overwrite hl.inside
    (j.log.writer.tail.image ((j.recordsOf (ds.take i)).map Record.encode))
    ((t.header (Record.delta d).encode).encode ++ (Record.delta d).encode)
    ((t.push (Record.delta d).encode).image ((j.recordsOf (ds.drop (i + 1))).map Record.encode))
  rw [← Tail.offset_pushAll, List.length_append, FrameHeader.length_encode, List.append_assoc]
    at hthere
  rw [hout.disk.bytes, hrecords, List.map_append, List.map_cons, Tail.image_append,
    Tail.image_cons]
  exact hthere

/-! ### Batches -/

/-- The batch was logged and carried out: the log has gained the records of logged groups, each of
them comes with the pointer to it, and the pages are as the changes leave them one after the
other. -/
structure WentThrough (j : Journal) (bs : Bytes) (rs : List Record)
    (pointers : List (Option LogPointer)) (j' : Journal) : Prop where
  /-- There are only changes. -/
  changes : (Record.changes rs).map .delta = rs
  /-- The pages. -/
  pages : (Record.changes rs).foldlM (Contents.change j.memory) j.memory.contents =
    some j'.memory.contents
  /-- The log. -/
  log : j.log.Appended bs (j.payloads rs) j'.log
  /-- What the log held, it holds in front of the records. -/
  held : ∀ h ps rest, j.log.Holds h ps rest →
    j'.log.Holds h (ps ++ j.payloads rs)
      (rest.drop (j.log.writer.tail.image (j.payloads rs)).length)
  /-- One answer for each record. -/
  answers : pointers.length = rs.length
  /-- A record of a logged group comes with the pointer to its frame. -/
  named : ∀ (i : Nat) (d : PageDelta), rs[i]? = some (.delta d) →
    j.switches.isEnabled d.target.group = true →
      ∃ p, pointers[i]? = some (some p) ∧
        Names (j.log.writer.tail.pushAll (j.payloads (rs.take i))) (Record.delta d).encode
          j'.log.disk.file.bytes p
  /-- Any other one comes without. -/
  unnamed : ∀ (i : Nat) (d : PageDelta), rs[i]? = some (.delta d) →
    j.switches.isEnabled d.target.group = false → pointers[i]? = some none
  /-- The switches stay. -/
  switches : j'.switches = j.switches

/-- The batch was refused: it has a record that is no change, or its changes cannot be carried out
one after the other.  Nothing was written, and no page was opened for changing. -/
structure Refused (j : Journal) (rs : List Record) (j' : Journal) : Prop where
  /-- There is a reason. -/
  reason : (∃ r ∈ rs, r.delta? = none) ∨
    (Record.changes rs).foldlM (Contents.change j.memory) j.memory.contents = none
  /-- The log stays, and so does its file. -/
  log : j'.log = j.log
  /-- The contents of pages stay. -/
  contents : j'.memory.contents = j.memory.contents
  /-- The pages that were opened for changing stay the same. -/
  marks : ∀ g, j'.memory.dirtyPages g = j.memory.dirtyPages g
  /-- The switches stay. -/
  switches : j'.switches = j.switches

theorem getElem?_changes (hmap : (Record.changes rs).map .delta = rs) {i : Nat} {d : PageDelta}
    (hd : rs[i]? = some (.delta d)) : (Record.changes rs)[i]? = some d := by
  rw [← hmap, List.getElem?_map] at hd
  rcases Option.map_eq_some_iff.1 hd with ⟨d', hd', ⟨⟩⟩
  exact hd'

theorem changes_take (hmap : (Record.changes rs).map .delta = rs) (i : Nat) :
    Record.changes (rs.take i) = (Record.changes rs).take i := by
  conv_lhs => rw [← hmap, ← List.map_take]
  rw [Record.changes_map_delta]

/-- A batch went through, or it was refused. -/
theorem applyBatch_cases (hl : j.log.Ready bs) (rs : List Record) :
    (∃ pointers j', applyBatch rs j = .ok pointers j' ∧ j.WentThrough bs rs pointers j') ∨
      ∃ e j', applyBatch rs j = .error e j' ∧ j.Refused rs j' := by
  cases hwhole : rs.any (·.delta?.isNone) with
  | true =>
    refine .inr ⟨.invalid .wholeRecordInBatch, j, ?_, ?_⟩
    · simp only [applyBatch, hwhole, if_true]
      rfl
    · rcases List.any_eq_true.1 hwhole with ⟨r, hr, hnone⟩
      exact ⟨.inl ⟨r, hr, Option.isNone_iff_eq_none.1 hnone⟩, rfl, rfl, fun _ => rfl, rfl⟩
  | false =>
    have hmap := Record.map_delta_changes hwhole
    have hcases := applyDeltas_cases hl (Record.changes rs)
    rw [applyBatch_of_changes hwhole]
    cases hchanges : (Record.changes rs).foldlM (Contents.change j.memory)
        j.memory.contents with
    | none =>
      rw [hchanges] at hcases
      rcases hcases with ⟨e, hrun, hpeeks⟩
      -- one of the changes could not be tried out
      refine .inr ⟨e, _, hrun, .inr hchanges, rfl, hpeeks.contents, ?_, rfl⟩
      exact keepsMarks_stage [] (Record.changes rs) j.memory
    | some c =>
      rw [hchanges] at hcases
      rcases hcases with ⟨log, m, hrun, hout, hlike, rfl⟩
      -- all of them could, and the whole row was appended
      refine .inl ⟨_, _, hrun, hmap, hchanges, hout, ?_, ?_, ?_, ?_, rfl⟩
      · intro h ps rest hh
        have hbs : bs = h.image ps ++ rest := by rw [← hl.disk.bytes, hh.disk.bytes]
        subst hbs
        exact hh.appended (Record.admissible_map_encode _) hout
      · rw [length_assign, ← List.length_map, hmap]
      · intro i d hd hlogged
        have hi := getElem?_changes hmap hd
        rw [payloads, changes_take hmap]
        refine ⟨(j.log.writer.tail.pushAll ((j.recordsOf ((Record.changes rs).take i)).map
          Record.encode)).pointer (Record.delta d).encode, ?_, names_pointer hl hout hi hlogged⟩
        have hlogged' : j.isLogged d = true := hlogged
        rw [getElem?_assign, hi, Option.map_some, if_pos hlogged']
      · intro i d hd hlogged
        rw [getElem?_assign, getElem?_changes hmap hd, Option.map_some,
          if_neg (by rw [isLogged, hlogged]; decide)]

end Journal

/-- **A batch is carried out as a whole or not at all.**  Whatever the pages, the switches and the
records are, a batch over a log that can go on in its file, as every opened log can
(`Writer.ready_ofDisk`), is logged and carried out, or it is refused, and then neither the log nor a
page nor a mark has changed.  And changes that could be tried out are carried out without a
failure. -/
theorem batches_all_or_nothing {j : Journal} {bs : Bytes} (hl : j.log.Ready bs)
    (rs : List Record) :
    ((∃ pointers j', Journal.applyBatch rs j = .ok pointers j' ∧
        j.WentThrough bs rs pointers j') ∨
      ∃ e j', Journal.applyBatch rs j = .error e j' ∧ j.Refused rs j') ∧
    ∀ ds m m₁, stage [] ds m = .ok () m₁ → ∃ m₂, Journal.applyAll ds m₁ = .ok () m₂ := by
  refine ⟨Journal.applyBatch_cases hl rs, ?_⟩
  intro ds m m₁ hstage
  -- staging tells what the changes make of the contents
  rcases stage_eq [] ds m with ⟨m', hpeeks, hcases⟩
  rw [Scratch.view_nil] at hcases
  cases hchanges : ds.foldlM (Contents.change m) m.contents with
  | none =>
    rw [hchanges] at hcases
    rcases hcases with ⟨e, herror⟩
    rw [hstage] at herror
    cases herror
  | some c =>
    rw [hchanges] at hcases
    rw [hstage] at hcases
    cases hcases
    rw [← hpeeks.contents, ← Contents.change_like hpeeks.toLike] at hchanges
    rcases Journal.applyAll_of_changes hchanges with ⟨m₂, hrun, -⟩
    exact ⟨m₂, hrun⟩

/-- A batch over a new log makes a page of each of two groups a node, only the second of which is
logged; a batch whose second change would leave a gap is refused. -/
theorem batches_all_or_nothing_of_two_groups :
    let j : Journal := ⟨⟨.ofFile ⟨.ofBytes (FileHeader.encode ⟨7, 1⟩), .memory⟩,
      ⟨.off, ⟨7, 1⟩, .start ⟨7, 1⟩, .zero⟩⟩, Memory.fresh [(1, 64), (2, 64)],
      Switches.empty.register 1 false⟩
    let first : List Record :=
      [.delta ⟨⟨1, 4, 12, 1⟩, .init 0 9⟩, .delta ⟨⟨2, 5, 12, 1⟩, .init 0 9⟩]
    let second : List Record :=
      [.delta ⟨⟨2, 5, 12, 1⟩, .init 0 9⟩, .delta ⟨⟨2, 5, 12, 1⟩, .add 2 8⟩]
    j.log.Ready (FileHeader.encode ⟨7, 1⟩) ∧
      (∃ pointers j', Journal.applyBatch first j = .ok pointers j' ∧
        j.WentThrough (FileHeader.encode ⟨7, 1⟩) first pointers j') ∧
      ∃ e j', Journal.applyBatch second j = .error e j' ∧ j.Refused second j' := by
  intro j first second
  have hl : j.log.Ready (FileHeader.encode ⟨7, 1⟩) := by
    refine ⟨⟨fun _ _ => rfl, ?_⟩, ?_⟩
    · exact Content.bytes_ofBytes _
    · decide
  have hfirst : ((Record.changes first).foldlM (Contents.change j.memory)
      j.memory.contents).isSome = true := by decide +kernel
  have hsecond : ((Record.changes second).foldlM (Contents.change j.memory)
      j.memory.contents).isSome = false := by decide +kernel
  refine ⟨hl, ?_, ?_⟩
  · rcases (batches_all_or_nothing hl first).1 with h | ⟨e, j', -, h⟩
    · exact h
    · rcases h.reason with ⟨r, hr, hnone⟩ | hnone
      · have hchanges : ∀ r ∈ first, r.delta? ≠ none := by decide
        exact absurd hnone (hchanges r hr)
      · rw [hnone] at hfirst
        cases hfirst
  · rcases (batches_all_or_nothing hl second).1 with ⟨pointers, j', -, h⟩ | h
    · rw [h.pages] at hsecond
      cases hsecond
    · exact h

end PageLog
