import PageLog.Transaction.Rollback
import PageLog.Proofs.Completion

/-!
# The end of a transaction

Both ends of a transaction are acknowledged in the same way, and there are three things in the way
of it: the other outcome may have been decided before, an update may remain under way, and the
handle may be missing or used up.  Each of these stops an acknowledgment before anything is said and
before the handle is touched.  Only one more thing can go wrong afterwards: the coordinator may
refuse what it is told.

All this is about calls that nothing interrupts.  What may come between the steps of a call is
another matter.

## Main definitions

* `UpdateFutures.Through` — updates that are through.
* `TxScene.Onward` — what stays, whatever happens.
* `TxScene.Quiet`, `TxScene.Acknowledges` — a step that says nothing, and one that acknowledges.
* `Transaction.acknowledge` — the way in which both ends are acknowledged.
* `TxScene.Fares` — how an acknowledgment can end.

## Main results

* `Transaction.waitFor_ok`, `Transaction.waitFor_error`, `Transaction.waitFor_of_through` — waiting
  for updates.
* `Transaction.ackCommit_eq`, `Transaction.deliverRollbackAck_eq` — both calls.
* `Transaction.acknowledge_fares` — **every way in which an acknowledgment can end**.
* `Transaction.onFinish_eq` — the listener.
-/

namespace PageLog

/-! ### Updates that are through -/

namespace UpdateFutures

/-- The updates are through: what they wait for has come, if they wait for anything. -/
def Through (fs : UpdateFutures) (us : List UpdateResult) : Prop :=
  ∀ u ∈ us, ∀ id, u.future = some id → (fs id).isDone = true

/-- What has come stays. -/
def Onward (fs fs' : UpdateFutures) : Prop := ∀ id, (fs id).isDone = true → (fs' id).isDone = true

theorem Onward.refl (fs : UpdateFutures) : fs.Onward fs := fun _ h => h

theorem Onward.trans {fs fs₁ fs₂ : UpdateFutures} (h : fs.Onward fs₁) (h' : fs₁.Onward fs₂) :
    fs.Onward fs₂ :=
  fun id hid => h' id (h id hid)

/-- A future may be replaced by one that has come if it has. -/
theorem onward_put {fs : UpdateFutures} {id : FutureId} {c : Completion UpdateResult}
    (h : (fs id).isDone = true → c.isDone = true) : fs.Onward (fs.put id c) := by
  intro other hother
  rw [put]
  split
  · next heq => exact h (heq ▸ hother)
  · exact hother

theorem onward_passOthers (time : Duration) (id : FutureId) (fs : UpdateFutures) :
    fs.Onward (fs.passOthers time id) := by
  intro other hother
  rw [passOthers]
  split
  · exact hother
  · exact Completion.isDone_pass time hother

theorem Through.onward {fs fs' : UpdateFutures} {us : List UpdateResult} (h : fs.Through us)
    (honward : fs.Onward fs') : fs'.Through us :=
  fun u hu id hid => honward id (h u hu id hid)

theorem through_nil (fs : UpdateFutures) : fs.Through [] :=
  fun _ hu => absurd hu List.not_mem_nil

theorem through_append {fs : UpdateFutures} {us us' : List UpdateResult} :
    fs.Through (us ++ us') ↔ fs.Through us ∧ fs.Through us' :=
  List.forall_mem_append

/-! ### Waiting for one of them -/

section WaitDone

variable {bound : Duration} {id : FutureId} {fs fs' : UpdateFutures}

theorem waitDone_of_done (bound : Duration) (h : (fs id).isDone = true) :
    waitDone bound id fs = .ok () fs :=
  if_pos h

/-- A wait for a future that has not come, among the others for which the time goes by too. -/
theorem waitDone_of_pending (bound : Duration) (h : (fs id).isDone = false) :
    let fs₁ := fs.passOthers ((fs id).waitTime bound) id
    waitDone bound id fs =
      match Completion.waitFinishedFor bound updateWaitName (fs id) with
      | .ok _ c => .ok () (fs₁.put id c)
      | .error e c => .error e (fs₁.put id c) := by
  intro fs₁
  have hsame : fs.passOthers ((fs id).waitTime bound) id id = fs id := if_pos rfl
  rw [waitDone, if_neg (by rw [h]; exact Bool.false_ne_true), on, Act.on]
  simp only [hsame]
  cases Completion.waitFinishedFor bound updateWaitName (fs id) with
  | ok _ c => rfl
  | error e c => rfl

theorem waitDone_ok (h : waitDone bound id fs = .ok () fs') :
    fs.Onward fs' ∧ (fs' id).isDone = true := by
  cases hdone : (fs id).isDone with
  | true =>
    rw [waitDone_of_done bound hdone] at h
    cases h
    exact ⟨.refl fs, hdone⟩
  | false =>
    rw [waitDone_of_pending bound hdone] at h
    cases hwait : Completion.waitFinishedFor bound updateWaitName (fs id) with
    | error e c =>
      rw [hwait] at h
      cases h
    | ok _ c =>
      rw [hwait] at h
      cases h
      have hcame := Completion.waitFinishedFor_ok hwait
      exact ⟨(onward_passOthers _ id fs).trans (onward_put fun _ => hcame),
        by rwa [put, if_pos rfl]⟩

theorem waitDone_error {e : Error} (h : waitDone bound id fs = .error e fs') :
    e = .timeout updateWaitName bound ∧ fs.Onward fs' ∧ (fs' id).isDone = false := by
  cases hdone : (fs id).isDone with
  | true =>
    rw [waitDone_of_done bound hdone] at h
    cases h
  | false =>
    rw [waitDone_of_pending bound hdone] at h
    cases hwait : Completion.waitFinishedFor bound updateWaitName (fs id) with
    | ok _ c =>
      rw [hwait] at h
      cases h
    | error e' c =>
      rw [hwait] at h
      cases h
      obtain ⟨he, hpending⟩ := Completion.waitFinishedFor_error hwait
      refine ⟨he, fun other hother => ?_, by rwa [put, if_pos rfl]⟩
      -- the future that is waited for has not come, so nothing is lost with it
      have hne : other ≠ id := by
        rintro rfl
        cases hdone.symm.trans hother
      rw [put, if_neg hne]
      exact onward_passOthers _ id fs other hother

end WaitDone

end UpdateFutures

namespace Transaction

open UpdateFutures

theorem waitFor_cons (bound : Duration) (u : UpdateResult) (us : List UpdateResult) :
    waitFor bound (u :: us) = (waitFor bound [u] >>= fun _ => waitFor bound us) := by
  cases hfuture : u.future with
  | none => simp only [waitFor, hfuture, pure_bind]
  | some id => simp only [waitFor, hfuture, bind_pure_unit]

/-- A wait for updates that is not given up ends with all of them through. -/
theorem waitFor_ok {bound : Duration} {us : List UpdateResult} {fs fs' : UpdateFutures}
    (h : waitFor bound us fs = .ok () fs') : fs.Onward fs' ∧ fs'.Through us := by
  induction us generalizing fs with
  | nil =>
    cases h
    exact ⟨.refl _, through_nil _⟩
  | cons u us ih =>
    rw [waitFor] at h
    cases hfuture : u.future with
    | none =>
      rw [hfuture] at h
      rcases ih h with ⟨honward, hthrough⟩
      refine ⟨honward, ?_⟩
      intro u' hu' id hid
      rcases List.mem_cons.1 hu' with rfl | hu'
      · rw [hfuture] at hid
        cases hid
      · exact hthrough u' hu' id hid
    | some id =>
      rw [hfuture] at h
      rcases Act.bind_eq_ok.1 h with ⟨⟨⟩, fs₁, hfirst, hrest⟩
      rcases waitDone_ok hfirst with ⟨honward₁, hdone⟩
      rcases ih hrest with ⟨honward, hthrough⟩
      refine ⟨honward₁.trans honward, ?_⟩
      -- an update that came through stays so while the others are waited for
      intro u' hu' id' hid
      rcases List.mem_cons.1 hu' with rfl | hu'
      · rw [hfuture] at hid
        cases hid
        exact honward _ hdone
      · exact hthrough u' hu' id' hid

/-- A wait for updates that is given up leaves one of them under way. -/
theorem waitFor_error {bound : Duration} {us : List UpdateResult} {fs fs' : UpdateFutures}
    {e : Error} (h : waitFor bound us fs = .error e fs') :
    e = .timeout updateWaitName bound ∧ fs.Onward fs' ∧ ¬ fs'.Through us := by
  induction us generalizing fs with
  | nil => cases h
  | cons u us ih =>
    rw [waitFor] at h
    cases hfuture : u.future with
    | none =>
      rw [hfuture] at h
      obtain ⟨he, honward, hwaits⟩ := ih h
      exact ⟨he, honward, fun hthrough =>
        hwaits fun u' hu' => hthrough u' (List.mem_cons_of_mem u hu')⟩
    | some id =>
      rw [hfuture] at h
      simp only at h
      cases hfirst : waitDone bound id fs with
      | ok _ fs₁ =>
        rw [Act.bind_of_ok hfirst] at h
        obtain ⟨he, honward, hwaits⟩ := ih h
        exact ⟨he, (waitDone_ok hfirst).1.trans honward, fun hthrough =>
          hwaits fun u' hu' => hthrough u' (List.mem_cons_of_mem u hu')⟩
      | error e₁ fs₁ =>
        rw [Act.bind_of_error hfirst] at h
        cases h
        obtain ⟨he, honward, hpending⟩ := waitDone_error hfirst
        refine ⟨he, honward, fun hthrough => ?_⟩
        rw [hthrough u List.mem_cons_self id hfuture] at hpending
        cases hpending

/-- Updates that are through need no wait. -/
theorem waitFor_of_through (bound : Duration) {us : List UpdateResult} {fs : UpdateFutures}
    (h : fs.Through us) : waitFor bound us fs = .ok () fs := by
  induction us with
  | nil => rfl
  | cons u us ih =>
    have hrest := ih fun u' hu' => h u' (List.mem_cons_of_mem u hu')
    rw [waitFor]
    cases hfuture : u.future with
    | none => exact hrest
    | some id =>
      have hdone := h u List.mem_cons_self id hfuture
      exact (Act.bind_of_ok (waitDone_of_done bound hdone)).trans hrest

variable {s s' : TxScene} {us : List UpdateResult}

theorem waitOn_apply (us : List UpdateResult) (s : TxScene) :
    waitOn us s =
      match waitFor s.tx.updateWait us s.futures with
      | .ok _ fs => .ok () { s with futures := fs }
      | .error e fs => .error e { s with futures := fs } := by
  rw [waitOn, Act.get_bind, Act.on]
  cases waitFor s.tx.updateWait us s.futures with
  | ok _ fs => rfl
  | error e fs => rfl

/-- Updates are waited for one after another. -/
theorem waitOn_cons (u : UpdateResult) (us : List UpdateResult) :
    waitOn (u :: us) = (waitOn [u] >>= fun _ => waitOn us) := by
  funext s
  rw [waitOn_apply, waitFor_cons, Act.bind_apply, Act.bind_apply, waitOn_apply]
  cases waitFor s.tx.updateWait [u] s.futures with
  | error e fs => rfl
  | ok _ fs => exact (waitOn_apply us { s with futures := fs }).symm

theorem waitOn_ok (h : waitOn us s = .ok () s') :
    ∃ fs, s' = { s with futures := fs } ∧ s.futures.Onward fs ∧ fs.Through us := by
  rw [waitOn_apply] at h
  cases hwait : waitFor s.tx.updateWait us s.futures with
  | ok _ fs =>
    rw [hwait] at h
    cases h
    exact ⟨fs, rfl, waitFor_ok hwait⟩
  | error e fs =>
    rw [hwait] at h
    cases h

theorem waitOn_error {e : Error} (h : waitOn us s = .error e s') :
    e = .timeout updateWaitName s.tx.updateWait ∧ ¬ s.futures.Through us ∧
      ∃ fs, s' = { s with futures := fs } ∧ s.futures.Onward fs ∧ ¬ fs.Through us := by
  rw [waitOn_apply] at h
  cases hwait : waitFor s.tx.updateWait us s.futures with
  | ok _ fs =>
    rw [hwait] at h
    cases h
  | error e' fs =>
    rw [hwait] at h
    cases h
    obtain ⟨he, honward, hpending⟩ := waitFor_error hwait
    refine ⟨he, fun hthrough => ?_, fs, rfl, honward, hpending⟩
    rw [waitFor_of_through s.tx.updateWait hthrough] at hwait
    cases hwait

end Transaction

/-! ### The end -/

/-- What is said to the one who holds a handle. -/
def AckHandle.call (handle : AckHandle) (xid : UInt64) (outcome : TxOutcome) : AckCall :=
  match handle, outcome with
  | .tracker id, outcome => .tracker id xid (outcome = .committed)
  | .snapshot s, .committed => .commit s
  | .snapshot s, .rolledBack => .rollback s

theorem Coordinator.refusal_new (call : AckCall) : new.refusal call = none := by
  cases call <;> rfl

/-- What is reported once the holder of a handle was told of a rollback. -/
def RollbackAck.ofHandle : AckHandle → RollbackAck
  | .tracker _ => .tracker
  | .snapshot _ => .coordinator

/-- The slot once a handle is brought, which counts if there was none. -/
def AckSlot.offered (slot : AckSlot) (handle : Option AckHandle) : AckSlot :=
  match slot, handle with
  | .unset, some handle => .armed handle
  | slot, _ => slot

@[simp] theorem AckSlot.offered_none (slot : AckSlot) : slot.offered none = slot := by
  cases slot <;> rfl

namespace TxScene

/-- What stays, whatever happens: an outcome that was decided, updates that were recorded, and
futures that came. -/
structure Onward (s s' : TxScene) : Prop where
  outcome : ∀ outcome, s.tx.outcome = some outcome → s'.tx.outcome = some outcome
  updates : s.tx.updates <+: s'.tx.updates
  futures : s.futures.Onward s'.futures

/-- From `s` to `s'` nothing is said; a handle and an update may have come. -/
structure Quiet (s : TxScene) (handle : Option AckHandle) (update : Option UpdateResult)
    (s' : TxScene) : Prop where
  xid : s'.tx.xid = s.tx.xid
  slot : s'.tx.slot = s.tx.slot.offered handle
  updates : s'.tx.updates = s.tx.updates ++ update.toList
  outcome : ∀ outcome, s.tx.outcome = some outcome → s'.tx.outcome = some outcome
  futures : s.futures.Onward s'.futures
  calls : s'.coordinator.calls = s.coordinator.calls

/-- From `s` to `s'` the outcome is acknowledged with the handle; it is said in the scene `now`. -/
structure Acknowledges (s : TxScene) (handle : AckHandle) (outcome : TxOutcome)
    (now s' : TxScene) : Prop where
  slot : s.tx.slot = .armed handle
  tx : now.tx = { s.tx with slot := .delivered, outcome := some outcome }
  decided : ∀ decided, s.tx.outcome = some decided → decided = outcome
  coordinator : now.coordinator = s.coordinator
  onward : s.futures.Onward now.futures
  through : now.futures.Through now.tx.updates
  said : s' = (Transaction.tell (handle.call now.tx.xid outcome)).left now

variable {s s' now : TxScene} {handle : AckHandle} {outcome : TxOutcome}

/-- Nothing is said, and neither a handle nor an update comes. -/
theorem Quiet.of_futures (s : TxScene) {fs : UpdateFutures} (h : s.futures.Onward fs) :
    s.Quiet none none { s with futures := fs } :=
  ⟨rfl, by simp, by simp, fun _ h => h, h, rfl⟩

theorem Quiet.refl (s : TxScene) : s.Quiet none none s := .of_futures s (.refl s.futures)

theorem Quiet.onward {handle : Option AckHandle} {update : Option UpdateResult}
    (h : s.Quiet handle update s') : s.Onward s' :=
  ⟨h.outcome, by rw [h.updates]; exact List.prefix_append _ _, h.futures⟩

/-- The step either says nothing or acknowledges an outcome. -/
def Ends (s s' : TxScene) : Prop :=
  s.Quiet none none s' ∨ ∃ handle outcome now, s.Acknowledges handle outcome now s'

/-- The scene with the outcome decided, by `outcome` if it is not yet. -/
def decided (s : TxScene) (outcome : TxOutcome) : TxScene :=
  { s with tx := { s.tx with outcome := some (s.tx.outcome.getD outcome) } }

theorem quiet_decided (s : TxScene) (outcome : TxOutcome) :
    s.Quiet none none (s.decided outcome) := by
  refine ⟨rfl, by simp [decided], by simp [decided], ?_, .refl _, rfl⟩
  intro outcome' h
  simp [decided, h]

theorem Ends.of_decided (outcome : TxOutcome) (h : (s.decided outcome).Ends s') : s.Ends s' := by
  have hdecided := s.quiet_decided outcome
  rcases h with h | ⟨handle, outcome', now, h⟩
  · exact .inl ⟨h.xid, h.slot, h.updates, fun o ho => h.outcome o (hdecided.outcome o ho),
      h.futures, h.calls⟩
  · refine .inr ⟨handle, outcome', now, h.slot, h.tx, ?_, h.coordinator, h.onward, h.through,
      h.said⟩
    intro o ho
    exact h.decided o (hdecided.outcome o ho)

theorem decided_of_some (own : TxOutcome) {decided : TxOutcome} (h : s.tx.outcome = some decided) :
    s.decided own = s := by
  rcases s with ⟨⟨xid, slot, outcome, updates, wait⟩, c, fs⟩
  cases h
  rfl

/-- The scene with something said. -/
def saying (s : TxScene) (call : AckCall) : TxScene :=
  { s with coordinator := { s.coordinator with calls := s.coordinator.calls ++ [call] } }

/-- The scene with the handle used up. -/
def used (s : TxScene) : TxScene := { s with tx := { s.tx with slot := .delivered } }

/-- The scene with the outcome decided and updates waited for. -/
def waited (s : TxScene) (own : TxOutcome) (fs : UpdateFutures) : TxScene :=
  { s.decided own with futures := fs }

theorem quiet_waited (s : TxScene) (own : TxOutcome) {fs : UpdateFutures}
    (honward : s.futures.Onward fs) : s.Quiet none none (s.waited own fs) :=
  have h := s.quiet_decided own
  ⟨h.xid, h.slot, h.updates, h.outcome, honward, h.calls⟩

/-- How an acknowledgment of the outcome `own` can end that answers `delivers` to the handle once
it was used, `already` if it was used before, and `otherwise` if the outcome is another one. -/
inductive Fares {α : Type} (s : TxScene) (own : TxOutcome) (otherwise : Result α) (already : α)
    (delivers : AckHandle → α) : EStateM.Result Error TxScene α → Prop where
  /-- Another outcome was decided before. -/
  | lost {other : TxOutcome} (decided : s.tx.outcome = some other) (differs : other ≠ own) :
      Fares s own otherwise already delivers (Act.ofResult otherwise s)
  /-- An update remains under way. -/
  | pending {fs : UpdateFutures} (decided : s.tx.outcome.getD own = own)
      (onward : s.futures.Onward fs) (before : ¬ s.futures.Through s.tx.updates)
      (waits : ¬ fs.Through s.tx.updates) :
      Fares s own otherwise already delivers
        (.error (.timeout updateWaitName s.tx.updateWait) (s.waited own fs))
  /-- There is no handle. -/
  | bare {fs : UpdateFutures} (decided : s.tx.outcome.getD own = own)
      (onward : s.futures.Onward fs) (through : fs.Through s.tx.updates)
      (slot : s.tx.slot = .unset) :
      Fares s own otherwise already delivers
        (.error (.contractViolation .noHandle) (s.waited own fs))
  /-- The handle was used before. -/
  | late {fs : UpdateFutures} (decided : s.tx.outcome.getD own = own)
      (onward : s.futures.Onward fs) (through : fs.Through s.tx.updates)
      (slot : s.tx.slot = .delivered) :
      Fares s own otherwise already delivers (.ok already (s.waited own fs))
  /-- The outcome is acknowledged. -/
  | told {handle : AckHandle} {now s' : TxScene} (acknowledges : s.Acknowledges handle own now s')
      (accepted : s.coordinator.refusal (handle.call s.tx.xid own) = none) :
      Fares s own otherwise already delivers (.ok (delivers handle) s')
  /-- The outcome is acknowledged, and the coordinator refuses that. -/
  | refused {handle : AckHandle} {now s' : TxScene} {e : Error}
      (acknowledges : s.Acknowledges handle own now s')
      (refuses : s.coordinator.refusal (handle.call s.tx.xid own) = some e) :
      Fares s own otherwise already delivers (.error e s')

theorem Fares.ends {α : Type} {own : TxOutcome} {otherwise : Result α} {already : α}
    {delivers : AckHandle → α} {act : Act TxScene α}
    (h : s.Fares own otherwise already delivers (act s)) : s.Ends (act.left s) := by
  rw [Act.left]
  generalize act s = x at h
  cases h with
  | lost _ _ => cases otherwise <;> exact .inl (.refl s)
  | pending _ honward _ _ => exact .inl (s.quiet_waited own honward)
  | bare _ honward _ _ => exact .inl (s.quiet_waited own honward)
  | late _ honward _ _ => exact .inl (s.quiet_waited own honward)
  | told acknowledges _ => exact .inr ⟨_, own, _, acknowledges⟩
  | refused acknowledges _ => exact .inr ⟨_, own, _, acknowledges⟩

end TxScene

namespace Transaction

variable {α : Type}

theorem decide_eq (outcome : TxOutcome) (s : TxScene) :
    Transaction.decide outcome s = .ok (s.tx.outcome.getD outcome) (s.decided outcome) := by
  rcases s with ⟨⟨xid, slot, decided, updates, wait⟩, c, fs⟩
  cases decided <;> rfl

theorem takeHandle_unset {s : TxScene} (h : s.tx.slot = .unset) :
    takeHandle s = .error (.contractViolation .noHandle) s := by
  simp only [takeHandle, Act.get_bind, h]
  rfl

theorem takeHandle_delivered {s : TxScene} (h : s.tx.slot = .delivered) :
    takeHandle s = .ok none s := by
  simp only [takeHandle, Act.get_bind, h]
  rfl

theorem takeHandle_armed {s : TxScene} {handle : AckHandle} (h : s.tx.slot = .armed handle) :
    takeHandle s = .ok (some handle) s.used := by
  simp only [takeHandle, Act.get_bind, h]
  rfl

theorem tell_of_accepted {call : AckCall} {s : TxScene} (h : s.coordinator.refusal call = none) :
    tell call s = .ok () (s.saying call) := by
  simp [tell, Act.on, Coordinator.tell, h, TxScene.saying]

theorem tell_of_refused {call : AckCall} {s : TxScene} {e : Error}
    (h : s.coordinator.refusal call = some e) : tell call s = .error e (s.saying call) := by
  simp [tell, Act.on, Coordinator.tell, h, TxScene.saying]

/-- What is said is noted, whether it is refused or not. -/
theorem tell_left (call : AckCall) (s : TxScene) : (tell call).left s = s.saying call := by
  cases h : s.coordinator.refusal call with
  | none => exact Act.left_of_ok (tell_of_accepted h)
  | some e => exact Act.left_of_error (tell_of_refused h)

/-- What stays, stays in an acknowledgment, too. -/
theorem onward_of_acknowledges {s now s' : TxScene} {handle : AckHandle} {outcome : TxOutcome}
    (h : s.Acknowledges handle outcome now s') : s.Onward s' := by
  have hsaid := h.said
  rw [tell_left] at hsaid
  rw [hsaid]
  refine ⟨fun decided hdecided => ?_, ?_, h.onward⟩
  · show now.tx.outcome = some decided
    rw [h.tx, h.decided decided hdecided]
  · have hupdates : now.tx.updates = s.tx.updates := by rw [h.tx]
    exact hupdates ▸ List.prefix_rfl

/-- A handle that is used when the updates are through acknowledges the outcome. -/
theorem acknowledges_waited {s : TxScene} {own : TxOutcome} {handle : AckHandle}
    {fs : UpdateFutures} (houtcome : s.tx.outcome.getD own = own)
    (hslot : s.tx.slot = .armed handle) (honward : s.futures.Onward fs)
    (hthrough : fs.Through s.tx.updates) :
    s.Acknowledges handle own (s.waited own fs).used
      ((s.waited own fs).used.saying (handle.call s.tx.xid own)) := by
  refine ⟨hslot, ?_, fun decided hdecided => ?_, rfl, honward, hthrough, (tell_left _ _).symm⟩
  · simp only [TxScene.used, TxScene.waited, TxScene.decided, houtcome]
  · rwa [hdecided] at houtcome

/-- The way in which both ends are acknowledged.  If the other outcome was decided before, nothing
is left to do but to answer `otherwise`. -/
def acknowledge (own : TxOutcome) (otherwise : Result α) (already : α) (delivers : AckHandle → α) :
    Act TxScene α := do
  if (← Transaction.decide own) ≠ own then Act.ofResult otherwise
  else
    waitForUpdates
    match ← takeHandle with
    | none => return already
    | some handle =>
        tell (handle.call (← get).tx.xid own)
        return delivers handle

theorem ackCommit_eq : ackCommit =
    acknowledge .committed (.error (.contractViolation .rolledBack)) false fun _ => true := by
  rw [ackCommit, acknowledge]
  refine congrArg _ (funext fun decided => ?_)
  by_cases h : decided = .committed
  · simp only [h, ne_eq, not_true_eq_false, if_false]
    refine congrArg _ (funext fun _ => congrArg _ (funext fun taken => ?_))
    rcases taken with _ | _ | s <;> rfl
  · simp only [h, ne_eq, not_false_eq_true, if_true]
    rfl

theorem deliverRollbackAck_eq : deliverRollbackAck =
    acknowledge .rolledBack (.ok .committed) .alreadyDelivered RollbackAck.ofHandle := by
  rw [deliverRollbackAck, acknowledge]
  refine congrArg _ (funext fun decided => ?_)
  cases decided with
  | committed => rfl
  | rolledBack =>
    simp only [reduceCtorEq, ne_eq, not_true_eq_false, if_false]
    refine congrArg _ (funext fun _ => congrArg _ (funext fun taken => ?_))
    rcases taken with _ | _ | s <;> rfl

/-- **Every way in which an acknowledgment can end.** -/
theorem acknowledge_fares (own : TxOutcome) (otherwise : Result α) (already : α)
    (delivers : AckHandle → α) (s : TxScene) :
    s.Fares own otherwise already delivers (acknowledge own otherwise already delivers s) := by
  rw [acknowledge, Act.bind_of_ok (decide_eq own s)]
  by_cases h : s.tx.outcome.getD own = own
  · simp only [h, ne_eq, not_true_eq_false, if_false]
    -- the updates that are there when the outcome is decided are waited for
    have hwaits : waitForUpdates (s.decided own) = waitOn s.tx.updates (s.decided own) := rfl
    cases hwait : waitForUpdates (s.decided own) with
    | error e t =>
      obtain ⟨rfl, hbefore, fs, rfl, honward, hpending⟩ := waitOn_error (hwaits.symm.trans hwait)
      rw [Act.bind_of_error hwait]
      exact .pending h honward hbefore hpending
    | ok _ t =>
      obtain ⟨fs, ht, honward, hthrough⟩ := waitOn_ok (hwaits.symm.trans hwait)
      obtain rfl : t = s.waited own fs := ht
      rw [Act.bind_of_ok hwait]
      cases hslot : s.tx.slot with
      | unset =>
        rw [Act.bind_of_error (takeHandle_unset (s := s.waited own fs) hslot)]
        exact .bare h honward hthrough hslot
      | delivered =>
        rw [Act.bind_of_ok (takeHandle_delivered (s := s.waited own fs) hslot)]
        exact .late h honward hthrough hslot
      | armed handle =>
        rw [Act.bind_of_ok (takeHandle_armed (s := s.waited own fs) hslot)]
        -- the handle is used up before its holder is told, and stays so if that fails
        have hacks := acknowledges_waited h hslot honward hthrough
        have hxid : (s.waited own fs).used.tx.xid = s.tx.xid := rfl
        simp only [Act.get_bind, hxid]
        cases hrefusal : s.coordinator.refusal (handle.call s.tx.xid own) with
        | none =>
          have htell := tell_of_accepted (s := (s.waited own fs).used) hrefusal
          rw [Act.bind_of_ok htell]
          exact .told hacks hrefusal
        | some e =>
          have htell := tell_of_refused (s := (s.waited own fs).used) hrefusal
          rw [Act.bind_of_error htell]
          exact .refused hacks hrefusal
  · simp only [h, ne_eq, not_false_eq_true, if_true]
    cases houtcome : s.tx.outcome with
    | none =>
      rw [houtcome] at h
      exact absurd rfl h
    | some other =>
      rw [houtcome] at h
      rw [TxScene.decided_of_some own houtcome]
      exact .lost houtcome h

theorem ends_ackCommit (s : TxScene) : s.Ends (ackCommit.left s) := by
  rw [ackCommit_eq]
  exact (acknowledge_fares ..).ends

theorem ends_deliverRollbackAck (s : TxScene) : s.Ends (deliverRollbackAck.left s) := by
  rw [deliverRollbackAck_eq]
  exact (acknowledge_fares ..).ends

/-- A listener that hears something decides the outcome.  It does not go on if that is known to be a
commit. -/
theorem onSignal_of_heard (bound : Option Duration) {signal : FinishSignal}
    (hsignal : signal ≠ .silence) (s : TxScene) :
    ∃ goesOn outcome, onSignal bound signal s = .ok goesOn (s.decided outcome) ∧
      (goesOn = false → s.tx.outcome.getD outcome = .committed) := by
  have hrollback := decide_eq .rolledBack s
  cases signal with
  | silence => exact absurd rfl hsignal
  | failed e => exact ⟨true, .rolledBack, Act.bind_of_ok hrollback, nofun⟩
  | dropped => exact ⟨true, .rolledBack, Act.bind_of_ok hrollback, nofun⟩
  | finished outcome =>
    refine ⟨_, outcome, Act.bind_of_ok (decide_eq outcome s), fun hstops => ?_⟩
    exact Decidable.of_not_not (of_decide_eq_false hstops)

/-- A listener that hears something decides the outcome and acknowledges a rollback. -/
theorem onFinish_eq (bound : Option Duration) {signal : FinishSignal} (hsignal : signal ≠ .silence)
    (s : TxScene) :
    ∃ outcome, onFinish bound signal s = deliverRollbackAck (s.decided outcome) := by
  obtain ⟨goesOn, outcome, hheard, hstops⟩ := onSignal_of_heard bound hsignal s
  refine ⟨outcome, (Act.bind_of_ok hheard).trans ?_⟩
  cases goesOn with
  | true => rfl
  | false =>
    -- the direct call would find the commit, too
    have hcommitted := hstops rfl
    rw [deliverRollbackAck, Act.bind_of_ok (decide_eq ..),
      TxScene.decided_of_some .rolledBack (show (s.decided outcome).tx.outcome = some _ from rfl)]
    simp only [TxScene.decided, hcommitted, Option.getD_some, if_true]
    rfl

theorem ends_onFinish (bound : Option Duration) (signal : FinishSignal) (s : TxScene) :
    s.Ends ((onFinish bound signal).left s) := by
  by_cases hsignal : signal = .silence
  · rw [hsignal]
    exact .inl (.refl s)
  · obtain ⟨outcome, hrun⟩ := onFinish_eq bound hsignal s
    refine .of_decided outcome ?_
    rw [Act.left, hrun, ← Act.left]
    exact ends_deliverRollbackAck _

end Transaction

end PageLog
