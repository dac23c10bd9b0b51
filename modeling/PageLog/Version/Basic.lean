import PageLog.Error

/-!
# Versions of rows

Every row carries the version that wrote it: the counter of the writing transaction, given out
under a version of the coordinator, and the count of the operation inside the transaction.  Two
versions of the same transaction are the same version, whatever their operations; the order of
versions, too, looks at the transaction only.

## Main definitions

* `Version` — a version, with `Version.same`, `Version.compare` and `Version.text`.
* `TxState` — what is known of the fate of a transaction.
* `RowVersion` — the version and state that a row carries.
* `Stamp` — anything a version can be read from, and written to if it is a row's.
-/

namespace PageLog

/-- A version. -/
structure Version where
  /-- The version of the coordinator that gave out the counter; zero for no version. -/
  coordinator : UInt64
  /-- The counter of the transaction. -/
  counter : UInt64
  /-- The count of the operation inside the transaction. -/
  operation : UInt32
  deriving DecidableEq, Repr, Inhabited

namespace Version

/-- No version. -/
def absent : Version := ⟨0, 0, 0⟩

/-- Whether a version was given out by a coordinator. -/
def isInitialized (v : Version) : Bool := v.coordinator != 0

/-- The version with another count of the operation. -/
def withOperation (v : Version) (operation : UInt32) : Version := { v with operation }

/-- Whether two versions belong to the same transaction. -/
def same (v w : Version) : Bool := v.coordinator == w.coordinator && v.counter == w.counter

/-- The order of versions: by coordinator, then by counter. -/
def compare (v w : Version) : Ordering :=
  (Ord.compare v.coordinator w.coordinator).then (Ord.compare v.counter w.counter)

@[simp] theorem same_withOperation (v : Version) (op : UInt32) :
    v.same (v.withOperation op) = true := by
  simp [same, withOperation]

/-- A version as it is written in reports. -/
def text (v : Version) : String :=
  s!"MvccVersion [crdVer={v.coordinator.toNat}, cntr={v.counter.toNat}, " ++
    s!"opCntr={v.operation.toNat}]"

/-- A version with its fields by name. -/
def fieldText (v : Version) : String :=
  "MvccVersion \x7b coordinator_version: " ++ toString v.coordinator.toNat ++ ", counter: " ++
    toString v.counter.toNat ++ ", op_counter: " ++ toString v.operation.toNat ++ " \x7d"

end Version

/-- What is known of the fate of a transaction. -/
inductive TxState where
  /-- Nothing. -/
  | na
  /-- It is ready to be committed. -/
  | prepared
  /-- It was given up. -/
  | aborted
  /-- It was committed. -/
  | committed
  deriving DecidableEq, Repr, Inhabited

namespace TxState

/-- The code of a state. -/
def code : TxState → Nat
  | .na => 0
  | .prepared => 1
  | .aborted => 2
  | .committed => 3

/-- The name of a state. -/
def name : TxState → String
  | .na => "Na"
  | .prepared => "Prepared"
  | .aborted => "Aborted"
  | .committed => "Committed"

/-- The state with a given code. -/
def ofCode : Nat → Result TxState
  | 0 => .ok .na
  | 1 => .ok .prepared
  | 2 => .ok .aborted
  | 3 => .ok .committed
  | _ => .error (.corruption .unknownTxState)

@[simp] theorem ofCode_code (s : TxState) : ofCode s.code = .ok s := by
  cases s <;> rfl

end TxState

/-- What a row carries. -/
structure RowVersion where
  /-- The version that wrote the row. -/
  version : Version
  /-- What is known of the fate of its transaction. -/
  state : TxState
  deriving DecidableEq, Repr, Inhabited

namespace RowVersion

/-- Whether two rows carry the same version in the same state. -/
def same (r s : RowVersion) : Bool := r.version.same s.version && r.state == s.state

/-- The row with another version; its state stays. -/
def setVersion (r : RowVersion) (v : Version) : RowVersion := { r with version := v }

end RowVersion

/-- Anything a version can be read from. -/
inductive Stamp where
  /-- A version that stands alone. -/
  | plain (v : Version)
  /-- The version of a row. -/
  | row (r : RowVersion)
  deriving DecidableEq, Repr, Inhabited

namespace Stamp

/-- The version. -/
def version : Stamp → Version
  | .plain v => v
  | .row r => r.version

/-- The state; nothing is known of the fate of a version that stands alone. -/
def state : Stamp → TxState
  | .plain _ => .na
  | .row r => r.state

/-- Replaces the version, if it is a row's. -/
def trySet (s : Stamp) (v : Version) : Result Stamp :=
  match s with
  | .plain _ => .error (.unsupported .versionReadOnly)
  | .row r => .ok (.row (r.setVersion v))

end Stamp

end PageLog
