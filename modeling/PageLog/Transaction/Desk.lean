import PageLog.Transaction.Rollback

/-!
# The transactions of a server

A desk holds the transactions of a server, the futures their updates wait for, the coordinator
they are acknowledged to, and the listeners that wait for one of them to finish.  Futures and
transactions are numbered as they come and are addressed by names, which may pass on to later ones.

## Main definitions

* `TxDesk` — transactions and what they share.
* `TxDesk.addFuture`, `TxDesk.onFuture` — a new future, and a step on one.
* `TxDesk.addTx`, `TxDesk.onTx` — a new transaction, and a step on one.
* `TxDesk.listen`, `TxDesk.resolve` — a listener, and what it hears.
-/

namespace PageLog

/-- A listener: the transaction it waits for, and for how long at most. -/
structure Listener where
  /-- The number of the transaction. -/
  tx : Nat
  /-- How long it waits. -/
  bound : Option Duration
  deriving DecidableEq, Repr, Inhabited

/-- Transactions and what they share. -/
structure TxDesk where
  /-- The coordinator. -/
  coordinator : Coordinator
  /-- The futures of updates. -/
  futures : UpdateFutures
  /-- The numbers of the futures, by name; the newest first. -/
  futureNames : List (String × FutureId)
  /-- The transactions. -/
  txs : Array Transaction
  /-- The numbers of the transactions, by name; the newest first. -/
  txNames : List (String × Nat)
  /-- The listeners, by name. -/
  listeners : List (String × Listener)

namespace TxDesk

/-- No transactions. -/
def empty : TxDesk := ⟨.new, .unresolved, [], #[], [], []⟩

/-! ### Futures -/

/-- The number of the future with a given name, and the next new number if there is none. -/
def futureId (d : TxDesk) (name : String) : FutureId :=
  (d.futureNames.lookup name).getD d.futureNames.length

/-- The desk with a new future.  A future that had the name before lives on in the updates that
wait for it. -/
def addFuture (name : String) (d : TxDesk) : TxDesk :=
  let id := d.futureNames.length
  { d with futures := d.futures.put id .new, futureNames := (name, id) :: d.futureNames }

/-- A step on a future. -/
def onFuture {α : Type} (id : FutureId) (act : Act (Completion UpdateResult) α) : Act TxDesk α :=
  Act.on TxDesk.futures (fun d futures => { d with futures }) (UpdateFutures.on id act)

/-! ### Transactions -/

/-- The number of the transaction with a given name, and the next new number if there is none. -/
def txId (d : TxDesk) (name : String) : Nat := (d.txNames.lookup name).getD d.txs.size

/-- The transaction with a given number; one that nothing happened to if there is none. -/
def tx (d : TxDesk) (id : Nat) : Transaction := d.txs.getD id default

/-- The desk with another state of a transaction. -/
def putTx (d : TxDesk) (id : Nat) (tx : Transaction) : TxDesk :=
  { d with txs := d.txs.setIfInBounds id tx }

/-- The desk with a new transaction.  A transaction that had the name before lives on for the
listeners that wait for it. -/
def addTx (name : String) (tx : Transaction) (d : TxDesk) : TxDesk :=
  { d with txs := d.txs.push tx, txNames := (name, d.txs.size) :: d.txNames }

/-- A step on a transaction together with what its end involves. -/
def onTx {α : Type} (id : Nat) (act : Act TxScene α) : Act TxDesk α :=
  Act.on (fun d => ⟨d.tx id, d.coordinator, d.futures⟩)
    (fun d s => { d.putTx id s.tx with coordinator := s.coordinator, futures := s.futures }) act

/-- Sets up a listener. -/
def listen (name : String) (listener : Listener) (d : TxDesk) : TxDesk :=
  { d with listeners := (name, listener) :: d.listeners }

/-- What a listener does when it hears something. -/
def resolve (name : String) (signal : FinishSignal) : Act TxDesk RollbackAck := do
  match (← get).listeners.lookup name with
  | none => throw .notFound
  | some l => onTx l.tx (Transaction.onFinish l.bound signal)

end TxDesk

end PageLog
