import PageLog.Proofs.Acknowledgment

/-!
# The answers to an acknowledgment

Whoever acknowledges the end of a transaction is told what came of it, and may rely on the answer.
A delivery is reported by the call that made it, and by no other; a call that comes too late learns
that the handle was used before; and a call that fails has either been refused by the coordinator,
with the handle used up, or has left the handle for the next one to try.  None of this depends on
what happened to the transaction before.

## Main definitions

* `TxScene.Tells`, `TxScene.Spares` — a call that acknowledges, and one that spares the handle.
* `TxScene.FailsWith` — what an error comes from.
* `TxScene.Truthful` — what the answers to an acknowledgment mean.

## Main results

* `TxScene.slot_delivered_iff` — a handle is used up by one of the calls before.
* `TxScene.truthful_of_fares` — the answers mean what they say.
* `acknowledgment_answers_hold` — **acknowledgment results tell the truth, and failures can be
  retried**.
-/

namespace PageLog

namespace TxScene

/-! ### What a call does -/

/-- From `s` to `s'` the outcome is said to the holder of the handle, which is used up. -/
structure Tells (s : TxScene) (own : TxOutcome) (handle : AckHandle) (s' : TxScene) : Prop where
  /-- There is a handle to be used. -/
  slot : s.tx.slot = .armed handle
  /-- The outcome is said, and nothing else. -/
  calls : s'.coordinator.calls = s.coordinator.calls ++ [handle.call s.tx.xid own]
  /-- The handle is used up. -/
  used : s'.tx.slot = .delivered

/-- From `s` to `s'` nothing is said, and the handle is left for others. -/
structure Spares (s s' : TxScene) : Prop where
  /-- Nothing is said. -/
  calls : s'.coordinator.calls = s.coordinator.calls
  /-- The slot is as before. -/
  slot : s'.tx.slot = s.tx.slot

/-- The error `e` is the coordinator's own answer to what it was told, or it is none of the
coordinator's: then it is a timeout or a breach of contract, and the handle is spared. -/
def FailsWith (s : TxScene) (own : TxOutcome) (e : Error) (s' : TxScene) : Prop :=
  (∃ handle, s.Tells own handle s' ∧
    s.coordinator.refusal (handle.call s.tx.xid own) = some e) ∨
  s.Spares s' ∧ ((∃ name after, e = .timeout name after) ∨ ∃ breach, e = .contractViolation breach)

variable {s s' now : TxScene} {own outcome : TxOutcome} {handle : AckHandle} {e : Error}

theorem Acknowledges.tells (h : s.Acknowledges handle own now s') : s.Tells own handle s' := by
  have hsaid := h.said
  rw [Transaction.tell_left, h.tx] at hsaid
  rw [hsaid]
  exact ⟨h.slot, congrArg (·.calls ++ _) h.coordinator, congrArg Transaction.slot h.tx⟩

theorem Tells.not_spares (h : s.Tells own handle s') : ¬ s.Spares s' := by
  intro hspares
  have hslot := hspares.slot
  rw [h.used, h.slot] at hslot
  cases hslot

theorem Quiet.spares (h : s.Quiet none none s') : s.Spares s' :=
  ⟨h.calls, h.slot.trans (AckSlot.offered_none _)⟩

theorem spares_waited (s : TxScene) (own : TxOutcome) {fs : UpdateFutures}
    (honward : s.futures.Onward fs) : s.Spares (s.waited own fs) :=
  (s.quiet_waited own honward).spares

/-- Deciding the outcome first changes neither what is said nor what is spared. -/
theorem FailsWith.of_decided (h : (s.decided outcome).FailsWith own e s') :
    s.FailsWith own e s' := by
  rcases h with ⟨handle, htells, hrefuses⟩ | ⟨hspares, he⟩
  · exact .inl ⟨handle, ⟨htells.slot, htells.calls, htells.used⟩, hrefuses⟩
  · exact .inr ⟨⟨hspares.calls, hspares.slot⟩, he⟩

/-! ### What the answers mean -/

/-- What is true of the answers to an acknowledgment of the outcome `own` after the operations
`ops`, if `delivers` is answered to the handle that is used and `already` if there is none left. -/
structure Truthful {α : Type} (s₀ : TxScene) (ops : List TxOp) (own : TxOutcome)
    (act : Act TxScene α) (already : α) (delivers : AckHandle → α) : Prop where
  /-- A delivery is answered exactly if this call makes it and is not refused. -/
  delivery : ∀ answered, let s := s₀.afterAll ops
    (∃ s', act s = .ok (delivers answered) s') ↔
      ∃ handle, delivers handle = delivers answered ∧ s.Tells own handle (act.left s) ∧
        s.coordinator.refusal (handle.call s.tx.xid own) = none
  /-- That it comes too late is answered exactly if the outcome is now the one to acknowledge, no
  update is under way now, and one of the operations used up the handle. -/
  already : let s := s₀.afterAll ops
    (∃ s', act s = .ok already s') ↔
      (act.left s).tx.outcome = some own ∧ (act.left s).futures.Through (act.left s).tx.updates ∧
        ∃ before op handle outcome now, s₀.AcknowledgedBy ops before op handle outcome now
  /-- An error is the coordinator's answer, or nothing was done. -/
  failure : let s := s₀.afterAll ops
    ∀ e s', act s = .error e s' → s.FailsWith own e s'
  /-- Where nothing is in the way, the acknowledgment is made. -/
  retry : let s := s₀.afterAll ops
    ∀ handle, s.tx.slot = .armed handle → (∀ decided, s.tx.outcome = some decided → decided = own) →
      s.futures.Through s.tx.updates → s.Tells own handle (act.left s)

/-- A handle is used up if one of the operations acknowledged the outcome with it. -/
theorem slot_delivered_iff {handle : Option AckHandle} (hslot : s.tx.slot = .ofHandle? handle)
    (ops : List TxOp) : (s.afterAll ops).tx.slot = .delivered ↔
      ∃ before op used outcome now, s.AcknowledgedBy ops before op used outcome now := by
  constructor
  · intro hused
    rcases s.afterAll_cases hslot ops with h | ⟨before, op, used, outcome, now, -, h⟩
    · rw [h.slot] at hused
      cases hor : handle.or (TxOp.installed ops) with
      | none =>
        rw [hor] at hused
        cases hused
      | some other =>
        rw [hor] at hused
        cases hused
    · exact ⟨before, op, used, outcome, now, h⟩
  · rintro ⟨before, op, used, outcome, now, h⟩
    exact h.used

section Fares

variable {α : Type} {otherwise : Result α} {already : α} {delivers : AckHandle → α}
  {act : Act TxScene α}

/-- A call that is answered with a delivery made it, and was not refused. -/
theorem Fares.tells_of_ok {answered : AckHandle}
    (h : s.Fares own otherwise already delivers (.ok (delivers answered) s'))
    (hother : otherwise ≠ .ok (delivers answered)) (halready : already ≠ delivers answered) :
    ∃ handle, delivers handle = delivers answered ∧ s.Tells own handle s' ∧
      s.coordinator.refusal (handle.call s.tx.xid own) = none := by
  generalize hx : EStateM.Result.ok (delivers answered) s' = x at h
  cases h with
  | lost _ _ => exact absurd (Act.ofResult_eq_ok.1 hx.symm).1 hother
  | pending _ _ _ _ => cases hx
  | bare _ _ _ _ => cases hx
  | late _ _ _ _ => exact absurd (EStateM.Result.ok.inj hx).1.symm halready
  | told hacks haccepted =>
    obtain ⟨hanswer, rfl⟩ := EStateM.Result.ok.inj hx
    exact ⟨_, hanswer.symm, hacks.tells, haccepted⟩
  | refused _ _ => cases hx

/-- A call that tells the outcome and is not refused is answered with a delivery. -/
theorem Fares.ok_of_tells (h : s.Fares own otherwise already delivers (act s))
    (htells : s.Tells own handle (act.left s))
    (haccepted : s.coordinator.refusal (handle.call s.tx.xid own) = none) :
    ∃ s', act s = .ok (delivers handle) s' := by
  have hspares := htells.not_spares
  rw [Act.left] at hspares
  generalize act s = x at h hspares
  cases h with
  | lost _ _ => cases otherwise <;> exact absurd (Quiet.refl s).spares hspares
  | pending _ honward _ _ => exact absurd (s.spares_waited own honward) hspares
  | bare _ honward _ _ => exact absurd (s.spares_waited own honward) hspares
  | late _ honward _ _ => exact absurd (s.spares_waited own honward) hspares
  | told hacks _ =>
    obtain rfl := AckSlot.armed.inj (htells.slot.symm.trans hacks.slot)
    exact ⟨_, rfl⟩
  | refused hacks hrefuses =>
    obtain rfl := AckSlot.armed.inj (htells.slot.symm.trans hacks.slot)
    rw [haccepted] at hrefuses
    cases hrefuses

/-- A call that is answered that it comes too late found the handle used up. -/
theorem Fares.late_of_ok (h : s.Fares own otherwise already delivers (.ok already s'))
    (hother : otherwise ≠ .ok already) (hdelivers : ∀ handle, already ≠ delivers handle) :
    s'.tx.outcome = some own ∧ s'.futures.Through s'.tx.updates ∧ s.tx.slot = .delivered := by
  generalize hx : EStateM.Result.ok already s' = x at h
  cases h with
  | lost _ _ => exact absurd (Act.ofResult_eq_ok.1 hx.symm).1 hother
  | pending _ _ _ _ => cases hx
  | bare _ _ _ _ => cases hx
  | late hdecided _ hthrough hslot =>
    obtain ⟨-, rfl⟩ := EStateM.Result.ok.inj hx
    exact ⟨congrArg some hdecided, hthrough, hslot⟩
  | told _ _ => exact absurd (EStateM.Result.ok.inj hx).1 (hdelivers _)
  | refused _ _ => cases hx

/-- A call that finds the handle used up, and nothing else in the way, is answered that it comes
too late. -/
theorem Fares.ok_of_late (h : s.Fares own otherwise already delivers (act s))
    (houtcome : (act.left s).tx.outcome = some own)
    (hthrough : (act.left s).futures.Through (act.left s).tx.updates)
    (hslot : s.tx.slot = .delivered) : ∃ s', act s = .ok already s' := by
  rw [Act.left] at houtcome hthrough
  generalize act s = x at h houtcome hthrough
  cases h with
  | lost hdecided hdiffers =>
    have hsame : s.tx.outcome = some own := by cases otherwise <;> exact houtcome
    exact absurd (Option.some.inj (hdecided.symm.trans hsame)) hdiffers
  | pending _ _ _ hwaits => exact absurd hthrough hwaits
  | bare _ _ _ hunset => cases hslot.symm.trans hunset
  | late _ _ _ _ => exact ⟨_, rfl⟩
  | told hacks _ => cases hslot.symm.trans hacks.slot
  | refused hacks _ => cases hslot.symm.trans hacks.slot

/-- A call that is answered in another way spares the handle. -/
theorem Fares.spares_of_ok {a : α} (h : s.Fares own otherwise already delivers (.ok a s'))
    (halready : a ≠ already) (hdelivers : ∀ handle, a ≠ delivers handle) : s.Spares s' := by
  generalize hx : EStateM.Result.ok a s' = x at h
  cases h with
  | lost _ _ =>
    obtain rfl := (Act.ofResult_eq_ok.1 hx.symm).2
    exact (Quiet.refl _).spares
  | pending _ _ _ _ => cases hx
  | bare _ _ _ _ => cases hx
  | late _ _ _ _ => exact absurd (EStateM.Result.ok.inj hx).1 halready
  | told _ _ => exact absurd (EStateM.Result.ok.inj hx).1 (hdelivers _)
  | refused _ _ => cases hx

/-- A call fails because it is refused by the coordinator, or before anything is done. -/
theorem Fares.failsWith (h : s.Fares own otherwise already delivers (.error e s'))
    (hother : ∀ e, otherwise = .error e → ∃ breach, e = .contractViolation breach) :
    s.FailsWith own e s' := by
  generalize hx : EStateM.Result.error e s' = x at h
  cases h with
  | lost _ _ =>
    cases hresult : otherwise with
    | ok a =>
      rw [hresult] at hx
      cases hx
    | error e' =>
      rw [hresult] at hx
      cases hx
      exact .inr ⟨(Quiet.refl s).spares, .inr (hother e hresult)⟩
  | pending _ honward _ _ =>
    cases hx
    exact .inr ⟨s.spares_waited own honward, .inl ⟨_, _, rfl⟩⟩
  | bare _ honward _ _ =>
    cases hx
    exact .inr ⟨s.spares_waited own honward, .inr ⟨_, rfl⟩⟩
  | late _ _ _ _ => cases hx
  | told _ _ => cases hx
  | refused hacks hrefuses =>
    cases hx
    exact .inl ⟨_, hacks.tells, hrefuses⟩

/-- A call that finds a handle, and nothing in the way, tells the outcome. -/
theorem Fares.tells_of_armed (h : s.Fares own otherwise already delivers (act s))
    (hslot : s.tx.slot = .armed handle)
    (houtcome : ∀ decided, s.tx.outcome = some decided → decided = own)
    (hthrough : s.futures.Through s.tx.updates) : s.Tells own handle (act.left s) := by
  rw [Act.left]
  generalize act s = x at h
  cases h with
  | lost hdecided hdiffers => exact absurd (houtcome _ hdecided) hdiffers
  | pending _ _ hbefore _ => exact absurd hthrough hbefore
  | bare _ _ _ hunset => cases hslot.symm.trans hunset
  | late _ _ _ hused => cases hslot.symm.trans hused
  | told hacks _ =>
    obtain rfl := AckSlot.armed.inj (hslot.symm.trans hacks.slot)
    exact hacks.tells
  | refused hacks _ =>
    obtain rfl := AckSlot.armed.inj (hslot.symm.trans hacks.slot)
    exact hacks.tells

/-- **The answers mean what they say**, if they can be told from each other. -/
theorem truthful_of_fares {installed : Option AckHandle} (hslot : s.tx.slot = .ofHandle? installed)
    (ops : List TxOp)
    (h : (s.afterAll ops).Fares own otherwise already delivers (act (s.afterAll ops)))
    (halready : ∀ handle, already ≠ delivers handle) (hother : otherwise ≠ .ok already)
    (hother' : ∀ handle, otherwise ≠ .ok (delivers handle))
    (hbreach : ∀ e, otherwise = .error e → ∃ breach, e = .contractViolation breach) :
    s.Truthful ops own act already delivers where
  delivery answered := by
    constructor
    · rintro ⟨s', hok⟩
      rw [Act.left_of_ok hok]
      exact (hok ▸ h).tells_of_ok (hother' answered) (halready answered)
    · rintro ⟨handle, hsame, htells, haccepted⟩
      rw [← hsame]
      exact h.ok_of_tells htells haccepted
  already := by
    intro t
    rw [← slot_delivered_iff hslot]
    constructor
    · rintro ⟨s', hok⟩
      rw [Act.left_of_ok hok]
      exact (hok ▸ h).late_of_ok hother halready
    · rintro ⟨houtcome, hthrough, hused⟩
      exact h.ok_of_late houtcome hthrough hused
  failure e s' herror := (herror ▸ h).failsWith hbreach
  retry handle := h.tells_of_armed

end Fares

end TxScene

namespace Transaction

variable {s s' : TxScene} {e : Error}

theorem fares_ackCommit (s : TxScene) :
    s.Fares .committed (.error (.contractViolation .rolledBack)) false (fun _ => true)
      (ackCommit s) := by
  rw [ackCommit_eq]
  exact acknowledge_fares ..

theorem fares_deliverRollbackAck (s : TxScene) :
    s.Fares .rolledBack (.ok .committed) .alreadyDelivered RollbackAck.ofHandle
      (deliverRollbackAck s) := by
  rw [deliverRollbackAck_eq]
  exact acknowledge_fares ..

/-- That the transaction was committed is answered by a call that spares the handle. -/
theorem spares_of_deliverRollbackAck (h : deliverRollbackAck s = .ok .committed s') :
    s.Spares s' := by
  refine (h ▸ fares_deliverRollbackAck s).spares_of_ok nofun ?_
  rintro (_ | _) <;> nofun

theorem failsWith_of_deliverRollbackAck (h : deliverRollbackAck s = .error e s') :
    s.FailsWith .rolledBack e s' :=
  (h ▸ fares_deliverRollbackAck s).failsWith nofun

/-- The answers of a listener mean what those of a direct call do. -/
theorem spares_of_onFinish {bound : Option Duration} {signal : FinishSignal}
    (h : onFinish bound signal s = .ok .committed s') : s.Spares s' := by
  by_cases hsignal : signal = .silence
  · rw [hsignal] at h
    cases h
  · obtain ⟨outcome, hrun⟩ := onFinish_eq bound hsignal s
    have hspares := spares_of_deliverRollbackAck (hrun.symm.trans h)
    exact ⟨hspares.calls, hspares.slot⟩

theorem failsWith_of_onFinish {bound : Option Duration} {signal : FinishSignal}
    (h : onFinish bound signal s = .error e s') : s.FailsWith .rolledBack e s' := by
  by_cases hsignal : signal = .silence
  · rw [hsignal] at h
    cases h
    exact .inr ⟨(TxScene.Quiet.refl s).spares, .inl ⟨_, _, rfl⟩⟩
  · obtain ⟨outcome, hrun⟩ := onFinish_eq bound hsignal s
    exact (failsWith_of_deliverRollbackAck (hrun.symm.trans h)).of_decided

end Transaction

/-- **Acknowledgment results tell the truth, and failures can be retried.**  Whatever happened to a
transaction since its beginning, the answers to both calls mean what they say; and neither the
answer that the transaction was committed nor an error comes from a call or a listener that touched
the handle, unless it is the coordinator that answered.  A listener that hears nothing in time
leaves all as it was. -/
theorem acknowledgment_answers_hold (xid : UInt64) (handle : Option AckHandle) (wait : Duration)
    (coordinator : Coordinator) (futures : UpdateFutures) (ops : List TxOp) :
    let s₀ : TxScene := ⟨.begun xid handle wait, coordinator, futures⟩
    let s := s₀.afterAll ops
    s₀.Truthful ops .committed Transaction.ackCommit false (fun _ => true) ∧
      s₀.Truthful ops .rolledBack Transaction.deliverRollbackAck .alreadyDelivered
        RollbackAck.ofHandle ∧
      (∀ s', Transaction.deliverRollbackAck s = .ok .committed s' → s.Spares s') ∧
      (∀ bound signal,
        (∀ s', Transaction.onFinish bound signal s = .ok .committed s' → s.Spares s') ∧
        ∀ e s', Transaction.onFinish bound signal s = .error e s' → s.FailsWith .rolledBack e s') ∧
      ∀ bound, Transaction.onFinish (some bound) .silence s =
        .error (.timeout Transaction.finishWaitName bound) s := by
  intro s₀ s
  have hslot : s₀.tx.slot = .ofHandle? handle := by cases handle <;> rfl
  refine ⟨?_, ?_, fun s' => Transaction.spares_of_deliverRollbackAck, fun bound signal =>
    ⟨fun s' => Transaction.spares_of_onFinish, fun e s' => Transaction.failsWith_of_onFinish⟩,
    fun bound => rfl⟩
  · refine TxScene.truthful_of_fares hslot ops (Transaction.fares_ackCommit s) nofun nofun nofun ?_
    rintro e ⟨⟩
    exact ⟨_, rfl⟩
  · refine TxScene.truthful_of_fares hslot ops (Transaction.fares_deliverRollbackAck s) ?_ nofun ?_
      nofun
    · rintro (_ | _) <;> nofun
    · rintro (_ | _) <;> nofun

/-- A commit fails while an update is under way.  It leaves the handle, and the commit behind the
update is the acknowledgment. -/
theorem acknowledgment_answers_hold_of_late_update :
    let handle : AckHandle := .snapshot ⟨⟨1, 2, 0⟩, 0, []⟩
    let s₀ : TxScene := ⟨.begun 6 (some handle) ⟨10⟩, .new, .unresolved⟩
    let ops : List TxOp := [.recordUpdate (.pending true 4)]
    let ops' : List TxOp := ops ++ [.ackCommit, .complete 4 (.ok (.new true))]
    (∃ e s', Transaction.ackCommit (s₀.afterAll ops) = .error e s' ∧
      (s₀.afterAll ops).Spares s') ∧
      ∃ s', Transaction.ackCommit (s₀.afterAll ops') = .ok true s' := by
  intro handle s₀ ops ops'
  obtain ⟨hfirst, -⟩ := acknowledgment_answers_hold 6 (some handle) ⟨10⟩ .new .unresolved ops
  obtain ⟨hsecond, -⟩ := acknowledgment_answers_hold 6 (some handle) ⟨10⟩ .new .unresolved ops'
  constructor
  · refine ⟨.timeout updateWaitName ⟨10⟩, _, rfl, ?_⟩
    rcases hfirst.failure _ _ rfl with ⟨other, -, hrefuses⟩ | ⟨hspares, -⟩
    · cases (Coordinator.refusal_new (other.call 6 .committed)).symm.trans hrefuses
    · exact hspares
  · refine (hsecond.delivery handle).2 ⟨handle, rfl, hsecond.retry handle rfl ?_ ?_, rfl⟩
    · rintro decided ⟨⟩
      rfl
    · intro u hu id hid
      obtain rfl := List.mem_singleton.1 hu
      cases hid
      rfl

end PageLog
