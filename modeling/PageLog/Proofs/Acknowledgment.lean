import Mathlib.Data.List.Induction
import PageLog.Proofs.TransactionEnds

/-!
# One thing after another

Anything may happen to a transaction, in any order: it gets its handle, updates are recorded and
come through, its outcome is decided, and it is committed, rolled back or listened to, with a
coordinator that refuses what it likes.  Here each of these is over before the next one begins.
Then an operation either says nothing, or it uses up the handle and says the one thing that fits the
outcome, at a time when all updates are through.  As there is one handle for a transaction, there is
one such operation at most.

A call whose bound is more than the clock can count breaks off where it would have to wait.  It has
decided the outcome by then and nothing else, as `TxOp.finish` does.

## Main definitions

* `TxOp` — what can happen to a transaction.
* `TxScene.AcknowledgedBy` — where in a run the acknowledgment is made, and what is so then.

## Main results

* `TxScene.after_cases` — **an operation says nothing or acknowledges the outcome**.
* `TxScene.afterAll_cases` — a run acknowledges once at most.
-/

namespace PageLog

/-! ### What can happen -/

/-- A transaction that was just begun, perhaps with a handle. -/
def Transaction.begun (xid : UInt64) (handle : Option AckHandle) (wait : Duration) : Transaction :=
  match handle with
  | none => .new xid wait
  | some handle => .withHandle xid handle wait

/-- What can happen to a transaction.  Nothing comes between the steps of a call here, so that no
update is recorded while it waits. -/
inductive TxOp where
  /-- It is given a handle. -/
  | setHandle (handle : AckHandle)
  /-- It is finished. -/
  | finish (outcome : TxOutcome)
  /-- An update is recorded. -/
  | recordUpdate (u : UpdateResult)
  /-- A future comes through. -/
  | complete (id : FutureId) (r : Result UpdateResult)
  /-- A future will come through after a while. -/
  | completeLater (id : FutureId) (delay : Duration) (r : Result UpdateResult)
  /-- The coordinator begins or ceases to refuse calls. -/
  | refuse (commit rollback : Option Error)
  /-- The transaction is committed and acknowledged. -/
  | ackCommit
  /-- The transaction is rolled back and acknowledged. -/
  | deliverRollbackAck
  /-- A listener hears how the transaction ended, and its task makes its steps at once. -/
  | hear (bound : Option Duration) (signal : FinishSignal)
  deriving Repr, Inhabited

namespace TxOp

/-- The step that an operation makes. -/
def run : TxOp → Act TxScene Unit
  | .setHandle handle => do
      let s ← get
      set { s with tx := ← Act.ofResult (s.tx.setHandle handle) }
  | .finish outcome => discard (Transaction.decide outcome)
  | .recordUpdate u => modify fun s => { s with tx := s.tx.recordUpdate u }
  | .complete id r =>
      modify fun s => { s with futures := s.futures.put id ((s.futures id).finish r).2 }
  | .completeLater id delay r =>
      modify fun s => { s with futures := s.futures.put id ((s.futures id).finishLater delay r) }
  | .refuse commit rollback =>
      modify fun s => { s with coordinator := ⟨s.coordinator.calls, commit, rollback⟩ }
  | .ackCommit => discard Transaction.ackCommit
  | .deliverRollbackAck => discard Transaction.deliverRollbackAck
  | .hear bound signal => discard (Transaction.onFinish bound signal)

/-- The handle that an operation brings. -/
def handle? : TxOp → Option AckHandle
  | .setHandle handle => some handle
  | _ => none

/-- The update that an operation records. -/
def update? : TxOp → Option UpdateResult
  | .recordUpdate u => some u
  | _ => none

/-- The first handle that operations bring. -/
def installed (ops : List TxOp) : Option AckHandle := ops.findSome? handle?

/-- The updates that operations record, in order. -/
def recorded (ops : List TxOp) : List UpdateResult := ops.filterMap update?

theorem installed_snoc (ops : List TxOp) (op : TxOp) :
    installed (ops ++ [op]) = (installed ops).or op.handle? := by
  simp [installed, List.findSome?_append]

theorem recorded_snoc (ops : List TxOp) (op : TxOp) :
    recorded (ops ++ [op]) = recorded ops ++ op.update?.toList := by
  rw [recorded, List.filterMap_append, recorded]
  cases op <;> rfl

end TxOp

/-- The slot of a transaction with or without a handle. -/
def AckSlot.ofHandle? : Option AckHandle → AckSlot
  | none => .unset
  | some handle => .armed handle

theorem AckSlot.offered_ofHandle? (handle handle' : Option AckHandle) :
    (ofHandle? handle).offered handle' = ofHandle? (handle.or handle') := by
  cases handle <;> cases handle' <;> rfl

namespace TxScene

/-- The scene after an operation, whether it succeeds or fails. -/
def after (s : TxScene) (op : TxOp) : TxScene := op.run.left s

/-- The scene after operations. -/
def afterAll (s : TxScene) (ops : List TxOp) : TxScene := ops.foldl after s

variable {s s' : TxScene}

theorem quiet_setHandle (s : TxScene) (handle : AckHandle) :
    s.Quiet (some handle) none (s.after (.setHandle handle)) := by
  rcases s with ⟨⟨xid, slot, decided, updates, wait⟩, c, fs⟩
  cases slot <;> exact ⟨rfl, rfl, (List.append_nil _).symm, fun _ h => h, .refl fs, rfl⟩

/-- **A step says nothing, or it acknowledges the outcome** with the handle of the transaction. -/
theorem after_cases (s : TxScene) (op : TxOp) :
    s.Quiet op.handle? op.update? (s.after op) ∨
      op.handle? = none ∧ op.update? = none ∧
        ∃ handle outcome now, s.Acknowledges handle outcome now (s.after op) := by
  cases op with
  | setHandle handle => exact .inl (quiet_setHandle s handle)
  | finish outcome =>
    refine .inl ?_
    rw [after, TxOp.run, Act.left_discard, Act.left_of_ok (Transaction.decide_eq outcome s)]
    exact s.quiet_decided outcome
  | recordUpdate u =>
    exact .inl ⟨rfl, (AckSlot.offered_none _).symm, rfl, fun _ h => h, .refl s.futures, rfl⟩
  | complete id r =>
    exact .inl (.of_futures s (UpdateFutures.onward_put fun _ => Completion.isDone_finish r _))
  | completeLater id delay r =>
    refine .inl (.of_futures s (UpdateFutures.onward_put fun hdone => ?_))
    exact (Completion.finishLater_keeps delay r (s.futures id)).1.trans hdone
  | refuse commit rollback =>
    exact .inl ⟨rfl, (AckSlot.offered_none _).symm, (List.append_nil _).symm, fun _ h => h,
      .refl s.futures, rfl⟩
  | ackCommit =>
    rw [after, TxOp.run, Act.left_discard]
    exact (Transaction.ends_ackCommit s).imp_right fun h => ⟨rfl, rfl, h⟩
  | deliverRollbackAck =>
    rw [after, TxOp.run, Act.left_discard]
    exact (Transaction.ends_deliverRollbackAck s).imp_right fun h => ⟨rfl, rfl, h⟩
  | hear bound signal =>
    rw [after, TxOp.run, Act.left_discard]
    exact (Transaction.ends_onFinish bound signal s).imp_right fun h => ⟨rfl, rfl, h⟩

/-! ### Runs -/

/-- Nothing was said in a run from `s`; its first handle, if it has one, waits to be used. -/
structure Silent (s : TxScene) (handle : Option AckHandle) (ops : List TxOp) : Prop where
  xid : (s.afterAll ops).tx.xid = s.tx.xid
  slot : (s.afterAll ops).tx.slot = .ofHandle? (handle.or (TxOp.installed ops))
  updates : (s.afterAll ops).tx.updates = s.tx.updates ++ TxOp.recorded ops
  calls : (s.afterAll ops).coordinator.calls = s.coordinator.calls

/-- A run from `s` acknowledges the outcome with the handle, which is said by the operation `op`
behind `before`, in the scene `now`. -/
structure AcknowledgedBy (s : TxScene) (ops before : List TxOp) (op : TxOp) (handle : AckHandle)
    (outcome : TxOutcome) (now : TxScene) : Prop where
  /-- The operation is one of the run. -/
  within : before ++ [op] <+: ops
  /-- Nothing was said before. -/
  silent : now.coordinator.calls = s.coordinator.calls
  /-- It is the outcome of the transaction that is said. -/
  decided : now.tx.outcome = some outcome
  /-- If the outcome was decided before, it was the same. -/
  kept : ∀ decided, (s.afterAll before).tx.outcome = some decided → decided = outcome
  /-- The updates are all those that were recorded so far. -/
  updates : now.tx.updates = s.tx.updates ++ TxOp.recorded before
  /-- None of them is under way. -/
  through : now.futures.Through now.tx.updates
  /-- It is said by the operation, to the holder of the handle. -/
  said : s.afterAll (before ++ [op]) = (Transaction.tell (handle.call s.tx.xid outcome)).left now
  /-- Nothing is said afterwards. -/
  once : (s.afterAll ops).coordinator.calls =
    s.coordinator.calls ++ [handle.call s.tx.xid outcome]
  /-- The outcome stays. -/
  stays : (s.afterAll ops).tx.outcome = some outcome
  /-- The handle was used up. -/
  used : (s.afterAll ops).tx.slot = .delivered

@[simp] theorem afterAll_snoc (s : TxScene) (ops : List TxOp) (op : TxOp) :
    s.afterAll (ops ++ [op]) = (s.afterAll ops).after op := by
  simp [afterAll]

variable {handle : Option AckHandle} {ops : List TxOp} {op : TxOp}

theorem Silent.quiet (h : s.Silent handle ops)
    (hop : (s.afterAll ops).Quiet op.handle? op.update? (s.afterAll (ops ++ [op]))) :
    s.Silent handle (ops ++ [op]) := by
  constructor
  · rw [hop.xid, h.xid]
  · rw [hop.slot, h.slot, AckSlot.offered_ofHandle?, TxOp.installed_snoc, Option.or_assoc]
  · rw [hop.updates, h.updates, TxOp.recorded_snoc, List.append_assoc]
  · rw [hop.calls, h.calls]

theorem Silent.acknowledged (h : s.Silent handle ops) {used : AckHandle} {outcome : TxOutcome}
    {now : TxScene}
    (hop : (s.afterAll ops).Acknowledges used outcome now (s.afterAll (ops ++ [op]))) :
    handle.or (TxOp.installed ops) = some used ∧
      s.AcknowledgedBy (ops ++ [op]) ops op used outcome now := by
  have hxid : now.tx.xid = s.tx.xid := by rw [hop.tx, h.xid]
  have hcalls : now.coordinator.calls = s.coordinator.calls := by rw [hop.coordinator, h.calls]
  have hsaid := hop.said
  rw [hxid] at hsaid
  have hlast := hsaid
  rw [Transaction.tell_left, saying] at hlast
  constructor
  · have hslot := h.slot
    rw [hop.slot] at hslot
    cases hused : handle.or (TxOp.installed ops) with
    | none =>
      rw [hused] at hslot
      cases hslot
    | some other =>
      rw [hused] at hslot
      cases hslot
      rfl
  · constructor
    · exact List.prefix_refl _
    · exact hcalls
    · rw [hop.tx]
    · exact hop.decided
    · rw [hop.tx, h.updates]
    · exact hop.through
    · exact hsaid
    · rw [hlast, hcalls]
    · rw [hlast, hop.tx]
    · rw [hlast, hop.tx]

theorem AcknowledgedBy.quiet {before : List TxOp} {first : TxOp} {used : AckHandle}
    {outcome : TxOutcome} {now : TxScene} (h : s.AcknowledgedBy ops before first used outcome now)
    (hop : (s.afterAll ops).Quiet op.handle? op.update? (s.afterAll (ops ++ [op]))) :
    s.AcknowledgedBy (ops ++ [op]) before first used outcome now := by
  constructor
  · exact h.within.trans (List.prefix_append _ _)
  · exact h.silent
  · exact h.decided
  · exact h.kept
  · exact h.updates
  · exact h.through
  · exact h.said
  · rw [hop.calls, h.once]
  · exact hop.outcome _ h.stays
  · rw [hop.slot, h.used]
    rfl

/-- A run says nothing, or one of its operations acknowledges the outcome. -/
theorem afterAll_cases (hslot : s.tx.slot = .ofHandle? handle) (ops : List TxOp) :
    s.Silent handle ops ∨
      ∃ before op used outcome now, handle.or (TxOp.installed before) = some used ∧
        s.AcknowledgedBy ops before op used outcome now := by
  induction ops using List.reverseRecOn with
  | nil =>
    refine .inl ⟨rfl, ?_, (List.append_nil _).symm, rfl⟩
    show s.tx.slot = _
    rw [hslot, TxOp.installed, List.findSome?_nil, Option.or_none]
  | append_singleton ops op ih =>
    have hcases := (s.afterAll ops).after_cases op
    rw [← afterAll_snoc] at hcases
    rcases ih with h | ⟨before, first, used, outcome, now, hused, h⟩
    · rcases hcases with hop | ⟨-, -, used, outcome, now, hop⟩
      · exact .inl (h.quiet hop)
      · exact .inr ⟨ops, op, used, outcome, now, h.acknowledged hop⟩
    · rcases hcases with hop | ⟨-, -, other, outcome', now', hop⟩
      · exact .inr ⟨before, first, used, outcome, now, hused, h.quiet hop⟩
      · -- the handle was used up, so there is none to acknowledge with
        have hslot' := hop.slot
        rw [h.used] at hslot'
        cases hslot'

end TxScene

end PageLog
