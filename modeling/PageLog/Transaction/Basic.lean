import PageLog.Transaction.Update

/-!
# Transactions near their end

A transaction holds at most one handle that says who wants to hear how it ended: a tracker on the
same server, or the coordinator, to be addressed with the snapshot of the transaction.  Its
outcome is decided by whoever speaks first.  The end is acknowledged at most once, after the
updates that the transaction had when the call looked at them are through, and only to say what the
outcome is.

## Main definitions

* `Transaction` — a transaction.
* `Coordinator`, `AckCall` — who is told, and what was said so far.
* `Transaction.setHandle`, `Transaction.finish`, `Transaction.recordUpdate` — before the end.
* `Transaction.waitForUpdates`, `Transaction.takeHandle`, `Transaction.ackCommit` — the end of a
  transaction that was committed.
-/

namespace PageLog

/-- Who wants to hear how a transaction ended. -/
inductive AckHandle where
  /-- A tracker on the same server, by its number. -/
  | tracker (id : Nat)
  /-- The coordinator, which knows the transaction by its snapshot. -/
  | snapshot (s : Snapshot)
  deriving DecidableEq, Repr, Inhabited

/-- How a transaction ended. -/
inductive TxOutcome where
  /-- Its changes stand. -/
  | committed
  /-- Its changes were taken back. -/
  | rolledBack
  deriving DecidableEq, Repr, Inhabited

/-- The name of an outcome. -/
def TxOutcome.name : TxOutcome → String
  | .committed => "Committed"
  | .rolledBack => "RolledBack"

/-- The outcome that a signal names. -/
def TxOutcome.ofSignal? : String → Option TxOutcome
  | "committed" => some .committed
  | "rolled-back" => some .rolledBack
  | _ => none

/-- Whether the end of a transaction was acknowledged. -/
inductive AckSlot where
  /-- No one is to be told yet. -/
  | unset
  /-- Someone is to be told. -/
  | armed (handle : AckHandle)
  /-- The handle was used. -/
  | delivered
  deriving DecidableEq, Repr, Inhabited

/-- A transaction. -/
structure Transaction where
  /-- Its number. -/
  xid : UInt64
  /-- Whether its end was acknowledged. -/
  slot : AckSlot
  /-- How it ended, once that is decided. -/
  outcome : Option TxOutcome
  /-- The results of its updates, in order. -/
  updates : List UpdateResult
  /-- How long to wait for an update under way. -/
  updateWait : Duration
  deriving DecidableEq, Repr, Inhabited

/-- What is said at the end of a transaction. -/
inductive AckCall where
  /-- A tracker is told the number of the transaction and whether it was committed. -/
  | tracker (id : Nat) (xid : UInt64) (commit : Bool)
  /-- The coordinator is told that a transaction was committed. -/
  | commit (s : Snapshot)
  /-- The coordinator is told that a transaction was rolled back. -/
  | rollback (s : Snapshot)
  deriving DecidableEq, Repr, Inhabited

/-- The coordinator and the trackers: what they were told, and what the coordinator refuses. -/
structure Coordinator where
  /-- What they were told so far. -/
  calls : List AckCall
  /-- The error with which commits are refused, if they are. -/
  refusesCommit : Option Error
  /-- The error with which rollbacks are refused, if they are. -/
  refusesRollback : Option Error
  deriving DecidableEq, Repr, Inhabited

namespace Coordinator

/-- Nothing was said, and nothing is refused. -/
def new : Coordinator := ⟨[], none, none⟩

/-- The error with which a call is refused, if it is.  A tracker refuses nothing. -/
def refusal (c : Coordinator) : AckCall → Option Error
  | .tracker .. => none
  | .commit _ => c.refusesCommit
  | .rollback _ => c.refusesRollback

/-- A call, which is noted whether it is refused or not. -/
def tell (call : AckCall) : Act Coordinator Unit := fun c =>
  let c' := { c with calls := c.calls ++ [call] }
  match c.refusal call with
  | none => .ok () c'
  | some e => .error e c'

end Coordinator

/-- A transaction together with all that its end involves. -/
structure TxScene where
  /-- The transaction. -/
  tx : Transaction
  /-- The coordinator. -/
  coordinator : Coordinator
  /-- The futures of updates. -/
  futures : UpdateFutures

namespace Transaction

/-- How long to wait for an update unless said otherwise. -/
def defaultUpdateWait : Duration := ⟨30000000000⟩

/-- A transaction without a handle. -/
def new (xid : UInt64) (updateWait : Duration) : Transaction := ⟨xid, .unset, none, [], updateWait⟩

/-- A transaction that was given a handle at once. -/
def withHandle (xid : UInt64) (handle : AckHandle) (updateWait : Duration) : Transaction :=
  { new xid updateWait with slot := .armed handle }

/-- Gives the transaction a handle, which happens once. -/
def setHandle (handle : AckHandle) (tx : Transaction) : Result Transaction :=
  match tx.slot with
  | .unset => .ok { tx with slot := .armed handle }
  | _ => .error (.contractViolation .handleSet)

/-- Whether the handle was used. -/
def isAcknowledged (tx : Transaction) : Bool :=
  match tx.slot with
  | .delivered => true
  | _ => false

/-- Adds the result of an update. -/
def recordUpdate (u : UpdateResult) (tx : Transaction) : Transaction :=
  { tx with updates := tx.updates ++ [u] }

/-- Decides the outcome, unless it is decided.  Tells the outcome. -/
def finish (outcome : TxOutcome) (tx : Transaction) : TxOutcome × Transaction :=
  match tx.outcome with
  | some decided => (decided, tx)
  | none => (outcome, { tx with outcome := some outcome })

/-- The slot with its handle, for people to read. -/
def slotText : AckSlot → String
  | .unset => "Unset"
  | .armed (.tracker _) => "Armed(Tracker)"
  | .armed (.snapshot s) => s!"Armed(Snapshot({s.fieldText}))"
  | .delivered => "Delivered"

/-- The transaction without its updates, for people to read. -/
def text (tx : Transaction) : String :=
  let outcome :=
    match tx.outcome with
    | some o => s!"Some({o.name})"
    | none => "None"
  "NearTx \x7b xid: " ++ toString tx.xid.toNat ++ ", slot: " ++ slotText tx.slot ++
    ", outcome: " ++ outcome ++ ", update_wait: " ++ tx.updateWait.text ++ " \x7d"

/-! ### The end -/

/-- Waits for the updates that are under way, in order. -/
def waitFor (bound : Duration) : List UpdateResult → Act UpdateFutures Unit
  | [] => pure ()
  | u :: rest => do
      match u.future with
      | none => pure ()
      | some id => UpdateFutures.waitDone bound id
      waitFor bound rest

/-- Waits for updates that are under way, for each as long as the transaction allows. -/
def waitOn (us : List UpdateResult) : Act TxScene Unit := do
  Act.on TxScene.futures (fun s futures => { s with futures }) (waitFor (← get).tx.updateWait us)

/-- Waits for all updates that were recorded before.  One that is recorded while the wait goes on is
not waited for. -/
def waitForUpdates : Act TxScene Unit := do
  waitOn (← get).tx.updates

/-- Uses the handle.  There is none to use if it was used before. -/
def takeHandle : Act TxScene (Option AckHandle) := do
  let s ← get
  match s.tx.slot with
  | .armed handle =>
      set { s with tx := { s.tx with slot := .delivered } }
      return some handle
  | .delivered => return none
  | .unset => throw (.contractViolation .noHandle)

/-- Says something to the coordinator or the tracker. -/
def tell (call : AckCall) : Act TxScene Unit :=
  Act.on TxScene.coordinator (fun s coordinator => { s with coordinator }) (Coordinator.tell call)

/-- Decides the outcome, unless it is decided.  Tells the outcome. -/
def decide (outcome : TxOutcome) : Act TxScene TxOutcome := do
  let s ← get
  let (decided, tx) := s.tx.finish outcome
  set { s with tx }
  return decided

/-- Commits the transaction and acknowledges that.  Tells whether this was the acknowledgment. -/
def ackCommit : Act TxScene Bool := do
  if (← decide .committed) ≠ .committed then throw (.contractViolation .rolledBack)
  waitForUpdates
  match ← takeHandle with
  | none => return false
  | some (.tracker id) =>
      tell (.tracker id (← get).tx.xid true)
      return true
  | some (.snapshot s) =>
      tell (.commit s)
      return true

end Transaction

end PageLog
