import Std.Data.TreeMap
import PageLog.Id

/-!
# Which groups are logged

Logging can be switched off for a group, and on again.  Only groups that were registered have a
switch; all others are logged.

## Main definitions

* `Switches` — the switches.
* `Switches.register`, `Switches.isEnabled`, `Switches.propose` — the operations.
-/

namespace PageLog

/-- The switches of the registered groups. -/
structure Switches where
  /-- For each registered group, whether it is logged. -/
  groups : Std.TreeMap GroupId Bool
  deriving Inhabited

/-- What came of a proposal to switch a group. -/
structure SwitchOutcome where
  /-- The group. -/
  group : GroupId
  /-- Whether the switch was moved. -/
  changed : Bool
  /-- Why the proposal was refused, if it was. -/
  refused : Option String
  deriving DecidableEq, Repr, Inhabited

namespace Switches

/-- No group is registered. -/
def empty : Switches := ⟨∅⟩

/-- Registers a group.  A group that is registered already keeps its switch. -/
def register (s : Switches) (group : GroupId) (enabled : Bool) : Switches :=
  ⟨s.groups.insertIfNew group enabled⟩

/-- Whether a group is logged. -/
def isEnabled (s : Switches) (group : GroupId) : Bool := s.groups[group]?.getD true

/-- Sets the switch of a registered group. -/
def propose (s : Switches) (group : GroupId) (enabled : Bool) : SwitchOutcome × Switches :=
  match s.groups[group]? with
  | none => (⟨group, false, some s!"cache group {GroupId.text group} is not registered"⟩, s)
  | some current => (⟨group, current != enabled, none⟩, ⟨s.groups.insert group enabled⟩)

end Switches

end PageLog
