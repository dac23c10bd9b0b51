import PageLog.Journal

/-!
# Replaying a log

After a crash the pages are brought back by carrying out the changes that the log records, frame by
frame.  A change that cannot be carried out either ends the replay or puts its page into
quarantine: what the log still says about that page is then passed over, and all other pages are
brought back as usual.  A record that cannot be decoded ends the replay in either case.

## Main definitions

* `ReplayPolicy` — what a change that fails leads to.
* `ReplayReport` — what a replay did.
* `Replay.step` — the effect of one frame.
* `Log.replay` — the replay of a log.
-/

namespace PageLog

/-- What a change that cannot be carried out leads to. -/
inductive ReplayPolicy where
  /-- The replay ends. -/
  | failFast
  /-- The page is left as it is from then on. -/
  | quarantine
  deriving DecidableEq, Repr, Inhabited

/-- The policy as it is named in settings. -/
def ReplayPolicy.setting : ReplayPolicy → String
  | .failFast => "fail-fast"
  | .quarantine => "quarantine"

/-- The policy that a setting names. -/
def ReplayPolicy.ofSetting? : String → Option ReplayPolicy
  | "fail-fast" => some .failFast
  | "quarantine" => some .quarantine
  | _ => none

/-- A page in quarantine. -/
structure QuarantinedPage where
  /-- The group of the page. -/
  group : GroupId
  /-- The page. -/
  page : PageId
  /-- The record that could not be applied. -/
  lsn : Lsn
  /-- Why. -/
  reason : Error
  deriving DecidableEq, Repr, Inhabited

/-- What a replay did. -/
structure ReplayReport where
  /-- Changes carried out. -/
  applied : Nat
  /-- Changes passed over because their page is in quarantine. -/
  skipped : Nat
  /-- Records that change no page. -/
  whole : Nat
  /-- The last record. -/
  lastLsn : Option Lsn
  /-- The last snapshot that was begun, and whether of everything. -/
  lastSnapshot : Option (UInt64 × Bool)
  /-- The last checkpoint that was reached. -/
  lastCheckpoint : Option UInt64
  /-- The pages in quarantine, in the order in which they got there. -/
  quarantined : List QuarantinedPage
  /-- How far the log is valid. -/
  validUpTo : Nat
  deriving DecidableEq, Repr, Inhabited

namespace ReplayReport

/-- Nothing was replayed. -/
def empty : ReplayReport := ⟨0, 0, 0, none, none, none, [], 0⟩

/-- Whether all changes were carried out. -/
def isClean (r : ReplayReport) : Bool := r.quarantined.isEmpty

/-- Whether a page is in quarantine. -/
def isQuarantined (r : ReplayReport) (t : PageTarget) : Bool :=
  r.quarantined.any fun q => q.group == t.group && q.page == t.page

end ReplayReport

/-- A replay under way: the pages brought back so far and what was done. -/
structure Replay where
  /-- The pages. -/
  memory : Memory
  /-- What was done. -/
  report : ReplayReport

namespace Replay

/-- Changes the report. -/
def note (f : ReplayReport → ReplayReport) : Act Replay Unit :=
  modify fun r => { r with report := f r.report }

/-- Carries out a change on the pages. -/
def applyDelta (d : PageDelta) : Act Replay Unit :=
  Act.on Replay.memory (fun r memory => { r with memory })
    (Act.mapError (·.during d) (Memory.applyDelta d))

/-- The effect of a change recorded under a number. -/
def stepDelta (policy : ReplayPolicy) (lsn : Lsn) (d : PageDelta) : Act Replay Unit := do
  if (← get).report.isQuarantined d.target then
    note fun r => { r with skipped := r.skipped + 1 }
  else
    match ← Act.attempt (applyDelta d) with
    | .ok () => note fun r => { r with applied := r.applied + 1 }
    | .error e =>
        match policy with
        | .failFast => throw e
        | .quarantine => note fun r => { r with
            quarantined := r.quarantined ++ [⟨d.target.group, d.target.page, lsn, e⟩] }

/-- The effect of one frame. -/
def step (policy : ReplayPolicy) (f : Frame) : Act Replay Unit := do
  note fun r => { r with lastLsn := some f.pointer.lsn }
  match ← Act.ofResult (Record.decode f.payload) with
  | .snapshot id full =>
      note fun r => { r with whole := r.whole + 1, lastSnapshot := some (id, full) }
  | .checkpoint id =>
      note fun r => { r with whole := r.whole + 1, lastCheckpoint := some id }
  | .delta d => stepDelta policy f.pointer.lsn d

end Replay

/-- Replays the frames of a scan onto pages. -/
def Scan.replay (policy : ReplayPolicy) (s : Scan) : Act (Disk × Memory) ReplayReport :=
  fun (d, m) =>
    match s.forEach (Replay.step policy) (d, ⟨m, .empty⟩) with
    | .ok s (d, r) => .ok { r.report with validUpTo := s.validUpTo } (d, r.memory)
    | .error e (d, r) => .error e (d, r.memory)

/-- Replays a log onto pages. -/
def Log.replay (policy : ReplayPolicy) : Act (Log × Memory) ReplayReport := do
  let scan ← Act.on Prod.fst (fun s log => (log, s.2)) Log.scan
  Act.on (fun s => (s.1.disk, s.2)) (fun s t => ({ s.1 with disk := t.1 }, t.2))
    (scan.replay policy)

end PageLog
