import PageLog.Transaction.Basic

/-!
# Acknowledging a rollback

A transaction that did not commit is acknowledged as rolled back, either by a direct call or by a
listener that waits for the transaction to finish.  An error or a lost connection while waiting
means that the transaction is to be rolled back.

## Main definitions

* `RollbackAck` — what came of an acknowledgment.
* `Transaction.deliverRollbackAck` — the direct call.
* `FinishSignal`, `Transaction.onSignal`, `Transaction.onFinish` — the listener.
-/

namespace PageLog

/-- What came of the acknowledgment of a rollback. -/
inductive RollbackAck where
  /-- The tracker was told. -/
  | tracker
  /-- The coordinator was told. -/
  | coordinator
  /-- The handle had been used before. -/
  | alreadyDelivered
  /-- The transaction was committed, so there is nothing to acknowledge. -/
  | committed
  deriving DecidableEq, Repr, Inhabited

/-- The name of a result. -/
def RollbackAck.name : RollbackAck → String
  | .tracker => "tracker"
  | .coordinator => "coordinator"
  | .alreadyDelivered => "already-delivered"
  | .committed => "committed"

/-- What a listener hears of the end of a transaction. -/
inductive FinishSignal where
  /-- It ended like this. -/
  | finished (outcome : TxOutcome)
  /-- It ended with an error. -/
  | failed (e : Error)
  /-- No one will say how it ended. -/
  | dropped
  /-- Nothing, for as long as the listener waits. -/
  | silence
  deriving DecidableEq, Repr, Inhabited

namespace Transaction

/-- What waiting for the end of a transaction is called in messages. -/
def finishWaitName : String := "tx finish"

/-- Rolls the transaction back and acknowledges that, unless it was committed. -/
def deliverRollbackAck : Act TxScene RollbackAck := do
  if (← decide .rolledBack) = .committed then return .committed
  waitForUpdates
  match ← takeHandle with
  | none => return .alreadyDelivered
  | some (.tracker id) =>
      tell (.tracker id (← get).tx.xid false)
      return .tracker
  | some (.snapshot s) =>
      tell (.rollback s)
      return .coordinator

/-- What a listener that waits for at most `bound` does at once when it hears something.  Tells
whether it goes on to acknowledge a rollback.  Without a bound a listener that hears nothing waits
on; here it is given up like one whose bound is over. -/
def onSignal (bound : Option Duration) : FinishSignal → Act TxScene Bool
  | .silence => throw (.timeout finishWaitName (bound.getD ⟨0⟩))
  | .finished outcome => do
      let decided ← decide outcome
      return decided ≠ .committed
  | .failed _ | .dropped => do
      let _ ← decide .rolledBack
      return true

/-- What a listener does if nothing comes between its steps.  It leaves the acknowledgment to a task
of its own, so that other steps may come in front of each one of that task. -/
def onFinish (bound : Option Duration) (signal : FinishSignal) : Act TxScene RollbackAck := do
  if ← onSignal bound signal then deliverRollbackAck else return .committed

end Transaction

end PageLog
