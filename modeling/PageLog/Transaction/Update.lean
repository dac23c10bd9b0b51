import PageLog.Completion
import PageLog.Version.Snapshot

/-!
# Results of updates

Each update of a transaction leaves a result: whether it changed anything, where it was logged,
and, set afterwards and at most once each, the values and versions involved.  The update may still
be under way on another server; its result then refers to the future that will tell.

## Main definitions

* `UpdateResult` — a result, with a setter for each field that is set afterwards.
* `UpdateFutures` — the futures of updates, by number.
-/

namespace PageLog

/-- What a procedure that ran inside an update gave back. -/
structure InvokeResult where
  /-- Its value, if it gave one. -/
  result : Option Bytes
  /-- Its failure, if it failed. -/
  error : Option String
  deriving DecidableEq, Repr, Inhabited

namespace InvokeResult

/-- The procedure succeeded. -/
def ok (result : Option Bytes) : InvokeResult := ⟨result, none⟩

/-- The procedure failed. -/
def failed (error : String) : InvokeResult := ⟨none, some error⟩

end InvokeResult

/-- The number of a future. -/
abbrev FutureId := Nat

/-- The result of an update. -/
structure UpdateResult where
  /-- Whether the update changed anything. -/
  success : Bool
  /-- Where it was logged. -/
  pointer : Option LogPointer
  /-- Its number within the partition. -/
  counter : Option UInt64
  /-- The future that will tell, if the update is under way elsewhere. -/
  future : Option FutureId
  /-- The value before the first change by the transaction. -/
  prevValue : Option Bytes
  /-- The value before the update. -/
  oldValue : Option Bytes
  /-- The value after the update. -/
  newValue : Option Bytes
  /-- What a procedure inside the update gave back. -/
  invokeResult : Option InvokeResult
  /-- Whether a filter kept the update from being made, if that was asked. -/
  filteredFlag : Option Bool
  /-- The history of the row. -/
  history : Option (List HistoryRow)
  deriving DecidableEq, Repr, Inhabited

namespace UpdateResult

/-- A result with nothing set. -/
def new (success : Bool) : UpdateResult :=
  ⟨success, none, none, none, none, none, none, none, none, none⟩

/-- The result of an update that was logged. -/
def logged (success : Bool) (pointer : LogPointer) : UpdateResult :=
  { new success with pointer := some pointer }

/-- The result of an update that was logged and numbered. -/
def counted (success : Bool) (counter : UInt64) (pointer : LogPointer) : UpdateResult :=
  { new success with pointer := some pointer, counter := some counter }

/-- The result of an update under way elsewhere. -/
def pending (success : Bool) (future : FutureId) : UpdateResult :=
  { new success with future := some future }

/-- Whether a filter kept the update from being made. -/
def filtered (u : UpdateResult) : Bool := u.filteredFlag.getD false

/-- A field that is set at most once: `value` if it is not set yet. -/
def setOnce {α : Type} (name : String) (field : Option α) (value : α) : Result (Option α) :=
  match field with
  | some _ => .error (.invalidValue (.fieldSet name))
  | none => .ok (some value)

/-- Sets the value before the first change by the transaction. -/
def setPrevValue (u : UpdateResult) (value : Bytes) : Result UpdateResult := do
  return { u with prevValue := ← setOnce "prev_value" u.prevValue value }

/-- Sets the value before the update. -/
def setOldValue (u : UpdateResult) (value : Bytes) : Result UpdateResult := do
  return { u with oldValue := ← setOnce "old_value" u.oldValue value }

/-- Sets the value after the update. -/
def setNewValue (u : UpdateResult) (value : Bytes) : Result UpdateResult := do
  return { u with newValue := ← setOnce "new_value" u.newValue value }

/-- Sets what a procedure inside the update gave back. -/
def setInvokeResult (u : UpdateResult) (value : InvokeResult) : Result UpdateResult := do
  return { u with invokeResult := ← setOnce "invoke_result" u.invokeResult value }

/-- Sets whether a filter kept the update from being made. -/
def setFiltered (u : UpdateResult) (value : Bool) : Result UpdateResult := do
  return { u with filteredFlag := ← setOnce "filtered" u.filteredFlag value }

/-- Sets the history of the row. -/
def setHistory (u : UpdateResult) (value : List HistoryRow) : Result UpdateResult := do
  return { u with history := ← setOnce "mvcc_history" u.history value }

end UpdateResult

/-! ### Futures -/

/-- What a wait for a future is called in messages. -/
def updateWaitName : String := "tx update future"

/-- The futures of updates, by number. -/
abbrev UpdateFutures := FutureId → Completion UpdateResult

namespace UpdateFutures

/-- No future is resolved. -/
def unresolved : UpdateFutures := fun _ => .new

/-- The futures with one of them replaced. -/
def put (fs : UpdateFutures) (id : FutureId) (c : Completion UpdateResult) : UpdateFutures :=
  fun other => if other = id then c else fs other

/-- A step on one of the futures. -/
def on {α : Type} (id : FutureId) (act : Act (Completion UpdateResult) α) :
    Act UpdateFutures α :=
  Act.on (fun fs => fs id) (fun fs c => fs.put id c) act

/-- The futures when time has passed for all but one of them. -/
def passOthers (time : Duration) (id : FutureId) (fs : UpdateFutures) : UpdateFutures :=
  fun other => if other = id then fs other else (fs other).pass time

/-- Waits for one of the futures, for at most `bound`.  The time of the wait goes by for all. -/
def waitDone (bound : Duration) (id : FutureId) : Act UpdateFutures Unit := fun fs =>
  if (fs id).isDone then .ok () fs
  else
    on id (Completion.waitFinishedFor bound updateWaitName)
      (fs.passOthers ((fs id).waitTime bound) id)

/-- A future, for people to read. -/
def text (fs : UpdateFutures) (id : FutureId) : String :=
  "UpdateFuture \x7b done: " ++ toString (fs id).isDone ++ " \x7d"

end UpdateFutures

end PageLog
