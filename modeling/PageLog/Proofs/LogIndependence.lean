import PageLog.FreeList.Basic
import PageLog.Proofs.JournalRun

/-!
# What does not depend on the log

What becomes of pages and lists is the same over any log that takes what is written to it: what
the log holds already, where it goes on and how it was opened make no difference.  So a statement on
lists needs a proof for a new log only.  The steps of two journals that differ in their logs are
followed side by side here, and the property of going the same way is closed under putting steps
together.

## Main definitions

* `Journal.Twin` — two journals that differ in their logs only.
* `Act.Blind` — a step goes the same way on either.
* `Journal.Refuses` — a step is refused without a trace.

## Main results

* `Journal.blind_applyBatch`, `Journal.blind_apply` — changes.
* `Act.Blind.of_ok`, `Act.Blind.refuses` — from one log to another.
* `FreeList.blind_create`, `FreeList.blind_put`, `FreeList.blind_take` — free lists.
-/

namespace PageLog

/-- The log took `n` records, and none means that nothing happened to it. -/
structure Log.Took (log : Log) (n : Nat) (log' : Log) : Prop where
  records : log'.writer.stats.records = log.writer.stats.records + n
  idle : n = 0 → log' = log

namespace Log

theorem Took.refl (log : Log) : log.Took 0 log := ⟨rfl, fun _ => rfl⟩

theorem Took.trans {log log' log'' : Log} {m n : Nat} (h : log.Took m log')
    (h' : log'.Took n log'') : log.Took (m + n) log'' := by
  refine ⟨by rw [h'.records, h.records, Nat.add_assoc], fun hnone => ?_⟩
  rw [h'.idle (by omega), h.idle (by omega)]

/-- That nothing happened is seen from the count of records. -/
theorem Took.zero_of_eq {log log' : Log} {n : Nat} (h : log.Took n log') (heq : log' = log) :
    n = 0 := by
  have hrecords := h.records
  rw [heq] at hrecords
  omega

end Log

/-- The journals differ in their logs only, and either log takes what is written to it. -/
structure Journal.Twin (j k : Journal) : Prop where
  memory : k.memory = j.memory
  switches : k.switches = j.switches
  left : ∃ bs, j.log.Ready bs
  right : ∃ bs, k.log.Ready bs

namespace Act

variable {α β : Type} {j k : Journal}

/-- Steps from the journals `j` and `k` came to the same: to the same value or to failure, to
journals that again differ in their logs only, and to as many new records. -/
inductive Alongside (j k : Journal) (r r' : EStateM.Result Error Journal α) : Prop
  | ok {a : α} {j' k' : Journal} {n : Nat} (left : r = .ok a j') (right : r' = .ok a k')
      (twin : j'.Twin k') (took : j.log.Took n j'.log) (took' : k.log.Took n k'.log)
  | error {e e' : Error} {j' k' : Journal} {n : Nat} (left : r = .error e j')
      (right : r' = .error e' k') (twin : j'.Twin k') (took : j.log.Took n j'.log)
      (took' : k.log.Took n k'.log)

/-- The step goes the same way over all logs. -/
structure Blind (x : Act Journal α) : Prop where
  alongside : ∀ {j k}, j.Twin k → Alongside j k (x j) (x k)

theorem blind_pure (a : α) : (pure a : Act Journal α).Blind :=
  ⟨fun h => .ok rfl rfl h (.refl _) (.refl _)⟩

theorem blind_throw (e : Error) : (throw e : Act Journal α).Blind :=
  ⟨fun h => .error rfl rfl h (.refl _) (.refl _)⟩

theorem blind_ofResult (r : Result α) : (ofResult r : Act Journal α).Blind := by
  cases r with
  | ok a => exact blind_pure a
  | error e => exact blind_throw e

theorem Blind.bind {x : Act Journal α} {f : α → Act Journal β} (hx : x.Blind)
    (hf : ∀ a, (f a).Blind) : (x >>= f).Blind := by
  refine ⟨fun {j k} h => ?_⟩
  cases hx.alongside h with
  | error left right twin took took' =>
    exact .error (bind_of_error left) (bind_of_error right) twin took took'
  | @ok a j₁ k₁ m left right twin took took' =>
    -- the second step starts from journals that differ in their logs only, like the first
    cases (hf a).alongside twin with
    | ok left₁ right₁ twin₁ took₁ took₁' =>
      exact .ok ((bind_of_ok left).trans left₁) ((bind_of_ok right).trans right₁) twin₁
        (took.trans took₁) (took'.trans took₁')
    | error left₁ right₁ twin₁ took₁ took₁' =>
      exact .error ((bind_of_ok left).trans left₁) ((bind_of_ok right).trans right₁) twin₁
        (took.trans took₁) (took'.trans took₁')

theorem blind_ite {c : Prop} [Decidable c] {x y : Act Journal α} (hx : x.Blind) (hy : y.Blind) :
    (if c then x else y).Blind := by
  split
  · exact hx
  · exact hy

/-- What goes on from the pages alone goes the same way. -/
theorem blind_get_bind {f : Memory → Act Journal α} (hf : ∀ m, (f m).Blind) :
    ((get : Act Journal Journal) >>= fun j => f j.memory).Blind := by
  refine ⟨fun {j k} h => ?_⟩
  have hsame := (hf j.memory).alongside h
  rw [get_bind, get_bind, h.memory]
  exact hsame

end Act

namespace Journal

open Act

variable {j k : Journal} {α : Type}

/-- A step on the pages does not see the log. -/
theorem blind_onMemory (act : Act Memory α) : (onMemory act).Blind := by
  refine ⟨fun {j k} h => ?_⟩
  have hkeep : ∀ m, Twin { j with memory := m } { k with memory := m } := by
    intro m
    exact ⟨rfl, h.switches, h.left, h.right⟩
  cases hact : act j.memory with
  | ok a m =>
    have hact' : act k.memory = .ok a m := by rw [h.memory, hact]
    exact .ok (onMemory_of_ok hact) (onMemory_of_ok hact') (hkeep m) (.refl _) (.refl _)
  | error e m =>
    have hact' : act k.memory = .error e m := by rw [h.memory, hact]
    exact .error (onMemory_of_error hact) (onMemory_of_error hact') (hkeep m) (.refl _) (.refl _)

theorem Twin.recordsOf (h : j.Twin k) (ds : List PageDelta) :
    k.recordsOf ds = j.recordsOf ds := by
  have hlogged : k.isLogged = j.isLogged := by
    funext d
    rw [isLogged, isLogged, h.switches]
  rw [Journal.recordsOf, Journal.recordsOf, hlogged]

/-- The records of changes are written to any log, and without records nothing happens to it. -/
theorem logDeltas_took (h : ∃ bs, j.log.Ready bs) (ds : List PageDelta) :
    ∃ pointers log, logDeltas ds j = .ok pointers { j with log } ∧
      j.log.Took (j.recordsOf ds).length log ∧ ∃ bs, log.Ready bs := by
  obtain ⟨bs, hl⟩ := h
  obtain ⟨log, hrun, hout⟩ := logDeltas_ok hl ds
  refine ⟨_, log, hrun, ⟨?_, fun hnone => ?_⟩, _, hout.ready hl.inside⟩
  · rw [hout.counted.records, List.length_map]
  · have hrecords : j.recordsOf ds = [] := List.eq_nil_of_length_eq_zero hnone
    have hpayloads : ((ds.filter j.isLogged).map fun d => (Record.delta d).encode) = [] := by
      have hmap := congrArg (List.map Record.encode) hrecords
      rwa [Journal.recordsOf, List.map_map] at hmap
    have hidle : logDeltas ds j = .ok [] j := by
      rw [logDeltas, Act.get_bind, hpayloads]
      exact Act.mapError_of_ok (onLog_of_ok rfl)
    rw [hidle, EStateM.Result.ok.injEq] at hrun
    exact (congrArg Journal.log hrun.2).symm

theorem blind_logDeltas (ds : List PageDelta) : (discard (logDeltas ds)).Blind := by
  refine ⟨fun {j k} h => ?_⟩
  obtain ⟨pointers, log, hrun, htook, hready⟩ := logDeltas_took h.left ds
  obtain ⟨pointers', log', hrun', htook', hready'⟩ := logDeltas_took h.right ds
  rw [h.recordsOf] at htook'
  exact .ok (discard_of_ok hrun) (discard_of_ok hrun') ⟨h.memory, h.switches, hready, hready'⟩
    htook htook'

/-- On the pointers to the records nothing depends. -/
theorem discard_applyDeltas (ds : List PageDelta) :
    (discard (applyDeltas ds) : Act Journal Unit) = (do
      onMemory (stage [] ds)
      discard (logDeltas ds)
      onMemory (applyAll ds)) := by
  -- the pointers are only looked at in the very end
  funext j
  cases hstage : onMemory (stage [] ds) j with
  | error e j₁ =>
    have hrun : applyDeltas ds j = .error e j₁ := bind_of_error hstage
    rw [bind_of_error hstage]
    exact map_of_error hrun
  | ok u j₁ =>
    rw [bind_of_ok hstage]
    cases hlog : logDeltas ds j₁ with
    | error e j₂ =>
      have hrun : applyDeltas ds j = .error e j₂ := (bind_of_ok hstage).trans (bind_of_error hlog)
      have hlogged : (discard (logDeltas ds) : Act Journal Unit) j₁ = .error e j₂ :=
        map_of_error hlog
      rw [bind_of_error hlogged]
      exact map_of_error hrun
    | ok pointers j₂ =>
      rw [bind_of_ok (discard_of_ok hlog)]
      cases happly : onMemory (applyAll ds) j₂ with
      | error e j₃ =>
        have hrun : applyDeltas ds j = .error e j₃ :=
          (bind_of_ok hstage).trans ((bind_of_ok hlog).trans (bind_of_error happly))
        exact map_of_error hrun
      | ok u j₃ =>
        have hrun : applyDeltas ds j = .ok (assign j₃.isLogged ds pointers) j₃ :=
          (bind_of_ok hstage).trans ((bind_of_ok hlog).trans (bind_of_ok happly))
        exact discard_of_ok hrun

theorem blind_applyBatch (records : List Record) : (discard (applyBatch records)).Blind := by
  by_cases hwhole : (records.any (·.delta?.isNone)) = true
  · have hrefused : (discard (applyBatch records) : Act Journal Unit) =
        throw (.invalid .wholeRecordInBatch) := by
      funext j
      simp only [applyBatch, hwhole, if_true]
      rfl
    rw [hrefused]
    exact blind_throw _
  · have hchanges : applyBatch records = applyDeltas (Record.changes records) := by
      funext j
      exact applyBatch_of_changes (Bool.eq_false_iff.2 hwhole)
    rw [hchanges, discard_applyDeltas]
    exact (blind_onMemory _).bind fun _ => (blind_logDeltas _).bind fun _ => blind_onMemory _

theorem blind_apply (r : Record) : (discard (Journal.apply r)).Blind := by
  have hbatch : (discard (Journal.apply r) : Act Journal Unit) = discard (applyBatch [r]) := by
    funext j
    cases hrun : applyBatch [r] j with
    | ok pointers j' =>
      have hrun' : Journal.apply r j = .ok pointers.getLast?.join j' := bind_of_ok hrun
      rw [discard_of_ok hrun, discard_of_ok hrun']
    | error e j' =>
      have hrun' : Journal.apply r j = .error e j' := bind_of_error hrun
      have hleft : (discard (Journal.apply r) : Act Journal Unit) j = .error e j' :=
        map_of_error hrun'
      have hright : (discard (applyBatch [r]) : Act Journal Unit) j = .error e j' :=
        map_of_error hrun
      rw [hleft, hright]
  rw [hbatch]
  exact blind_applyBatch _

end Journal

/-! ### From one log to another -/

/-- The step is refused, and makes no difference to the log, the switches, or what pages hold. -/
def Journal.Refuses {α : Type} (j : Journal) (act : Act Journal α) : Prop :=
  ∃ e m, act j = .error e { j with memory := m } ∧ j.memory.Peeks m

section Twin

variable {α : Type} {j k : Journal} {x : Act Journal α}

/-- What succeeds over one log succeeds over the other, with the same value. -/
theorem Act.Blind.of_ok (hx : x.Blind) (h : j.Twin k) {a : α} {k' : Journal}
    (hk : x k = .ok a k') : ∃ j', x j = .ok a j' := by
  cases hx.alongside h with
  | ok left right twin took took' =>
    rw [right] at hk
    cases hk
    exact ⟨_, left⟩
  | error left right twin took took' =>
    rw [right] at hk
    cases hk

/-- What is refused over one log is refused over the other, with as little trace. -/
theorem Act.Blind.refuses (hx : x.Blind) (h : j.Twin k) (hk : k.Refuses x) : j.Refuses x := by
  obtain ⟨e, m, hk, hpeeks⟩ := hk
  cases hx.alongside h with
  | ok left right twin took took' =>
    rw [right] at hk
    cases hk
  | @error e₁ e₂ j' k' n left right twin took took' =>
    rw [right] at hk
    cases hk
    refine ⟨e₁, j'.memory, ?_, ?_⟩
    · -- no record was counted over the one log, so none was written to the other
      have hlog : j'.log = j.log := took.idle (took'.zero_of_eq rfl)
      have hswitches : j'.switches = j.switches := twin.switches.symm.trans h.switches
      rw [left, ← hlog, ← hswitches]
    · rw [← twin.memory, ← h.memory]
      exact hpeeks

end Twin

namespace FreeList

open Act Journal

theorem blind_create (group : GroupId) : (create group).Blind := by
  refine (blind_onMemory _).bind fun head => ?_
  refine blind_get_bind (f := fun m => Act.ofResult m.formats.latest >>= _) fun m => ?_
  refine (blind_ofResult _).bind fun format => (blind_apply _).bind fun _ => blind_pure _

theorem blind_fillSlot (l : FreeList) (tail : PageTarget) (slot : Nat) (data : PageId) :
    (l.fillSlot tail slot data).Blind :=
  (blind_apply _).bind fun _ => blind_pure _

theorem blind_linkNode (l : FreeList) (tail : PageTarget) (data : PageId) :
    (l.linkNode tail data).Blind := by
  refine (blind_onMemory _).bind fun node => ?_
  refine blind_get_bind (f := fun m => Act.ofResult m.formats.latest >>= _) fun m => ?_
  exact (blind_ofResult _).bind fun format => (blind_applyBatch _).bind fun _ => blind_pure _

theorem blind_put (l : FreeList) (data : PageId) : (l.put data).Blind := by
  refine blind_ite (blind_throw _) ?_
  refine blind_get_bind (f := fun m => Act.ofResult (m.pageSize l.group) >>= _) fun m => ?_
  refine (blind_ofResult _).bind fun size => blind_ite (blind_throw _) ?_
  refine blind_ite (blind_throw _) ((blind_onMemory _).bind fun found => ?_)
  exact blind_ite (blind_fillSlot ..) (blind_linkNode ..)

theorem blind_take (l : FreeList) : l.take.Blind := by
  refine (blind_onMemory _).bind fun view => ?_
  cases view.last with
  | some last => exact (blind_apply _).bind fun _ => blind_pure _
  | none =>
    refine blind_ite (blind_pure _) ((blind_onMemory _).bind fun format => ?_)
    exact (blind_apply _).bind fun _ => blind_pure _

end FreeList

end PageLog
