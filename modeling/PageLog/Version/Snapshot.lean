import PageLog.Version.Basic

/-!
# What a transaction sees

A snapshot is taken when a transaction begins.  It sees what was written under earlier
coordinators, what transactions with a smaller counter wrote unless they were still running, and
what its own transaction wrote in earlier operations.  It also carries a bound below which no
snapshot looks any more, so that old rows can be removed.

## Main definitions

* `Snapshot` — a snapshot.
* `Snapshot.isVisible`, `Snapshot.isCleanable` — which rows it sees, and which can go.
* `HistoryRow` — a row version and the version that replaced it.
-/

namespace PageLog

/-- The view of the rows that a transaction has. -/
structure Snapshot where
  /-- The version of the transaction. -/
  version : Version
  /-- Rows up to this counter are not needed by anyone. -/
  cleanup : UInt64
  /-- The counters of the transactions that were running, ascending and without repetition. -/
  active : List UInt64
  deriving DecidableEq, Repr, Inhabited

/-- A counter inserted into an ascending list, unless it is there already. -/
def insertCounter (c : UInt64) : List UInt64 → List UInt64
  | [] => [c]
  | d :: rest =>
      if c < d then c :: d :: rest else if c = d then d :: rest else d :: insertCounter c rest

namespace Snapshot

/-- A snapshot with the given running transactions. -/
def ofActive (version : Version) (cleanup : UInt64) (counters : List UInt64) : Snapshot :=
  ⟨version, cleanup, counters.foldr insertCounter []⟩

/-- Whether the transaction with this counter was running. -/
def isActive (s : Snapshot) (counter : UInt64) : Bool := s.active.contains counter

/-- Whether the snapshot sees a row with version `v`. -/
def isVisible (s : Snapshot) (v : Version) : Bool :=
  match Ord.compare v.coordinator s.version.coordinator with
  | .lt => true
  | .gt => false
  | .eq =>
      if v.counter = s.version.counter then v.operation < s.version.operation
      else v.counter < s.version.counter && !s.isActive v.counter

/-- Whether no one looks at a row with version `v` any more once it is replaced. -/
def isCleanable (s : Snapshot) (v : Version) : Bool :=
  v.coordinator < s.version.coordinator ||
    (v.coordinator == s.version.coordinator && v.counter ≤ s.cleanup)

/-- The running transactions between braces. -/
def activeText (s : Snapshot) : String :=
  "\x7b" ++ ", ".intercalate (s.active.map fun c => toString c.toNat) ++ "\x7d"

/-- A snapshot as it is written in reports. -/
def text (s : Snapshot) : String :=
  s!"MvccSnapshot [{s.version.text}, cleanupVer={s.cleanup.toNat}, activeTxs={s.activeText}]"

/-- A snapshot with its fields by name. -/
def fieldText (s : Snapshot) : String :=
  "MvccSnapshot \x7b version: " ++ s.version.fieldText ++ ", cleanup_version: " ++
    toString s.cleanup.toNat ++ ", active_txs: " ++ s.activeText ++ " \x7d"

end Snapshot

/-- A row version in the history of a row. -/
structure HistoryRow where
  /-- Where the row is. -/
  link : UInt64
  /-- The version that wrote it. -/
  version : Version
  /-- The version that replaced it, if one did. -/
  replacedBy : Option Version
  deriving DecidableEq, Repr, Inhabited

/-- Whether the row version was replaced. -/
def HistoryRow.isSuperseded (h : HistoryRow) : Bool := h.replacedBy.isSome

end PageLog
