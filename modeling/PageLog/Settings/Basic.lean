import PageLog.Journal
import PageLog.Recovery

/-!
# Settings of a store

The settings say which groups a store has and with what page size, which of them are logged, how
its log is opened, how long transactions wait, and what replay does about a change that fails.

## Main definitions

* `GroupSettings`, `Settings` — the settings of a group, and all settings.
* `Settings.standard` — the settings of a store for which nothing is said.
* `SettingsFault` — why settings are refused, with `SettingsFault.message`.
* `Settings.check` — whether page sizes suffice and no group is named twice.
* `Settings.memory`, `Settings.switches`, `Settings.logOptions` — what the settings make.

## Main results

* `Settings.check_ok_iff` — what the check comes to.
-/

namespace PageLog

/-- The settings of a group. -/
structure GroupSettings where
  /-- The group. -/
  id : GroupId
  /-- Its page size, if it has one of its own. -/
  pageSize : Option UInt32
  /-- Whether its pages are logged. -/
  logged : Bool
  deriving DecidableEq, Repr, Inhabited

/-- All settings. -/
structure Settings where
  /-- The page size of groups without one of their own. -/
  defaultPageSize : UInt32
  /-- The groups that have settings. -/
  groups : List GroupSettings
  /-- When appended records are made durable. -/
  sync : SyncMode
  /-- The number that tells this store's log from others'. -/
  salt : UInt64
  /-- How many milliseconds a rollback waits before it is acknowledged, if not for ever. -/
  ackTimeout : Option UInt64
  /-- How many milliseconds a transaction waits for an update. -/
  updateWait : UInt64
  /-- What replay does about a change that fails. -/
  policy : ReplayPolicy
  deriving DecidableEq, Repr, Inhabited

/-- Why settings are not to be had. -/
inductive SettingsFault where
  /-- The file with the settings cannot be read. -/
  | unreadable (path reason : String)
  /-- What is written there are no settings. -/
  | malformed (path : String)
  /-- A number is too great to be written. -/
  | unwritable
  /-- The default page size is too small. -/
  | defaultTooSmall (size : UInt32)
  /-- A group is named twice. -/
  | groupTwice (group : GroupId)
  /-- The page size of a group is too small. -/
  | groupTooSmall (group : GroupId) (size : UInt32)
  deriving DecidableEq, Repr, Inhabited

namespace SettingsFault

/-- The name of the kind of a fault. -/
def kind : SettingsFault → String
  | .unreadable .. => "Read"
  | .malformed _ => "Parse"
  | .unwritable => "Serialize"
  | .defaultTooSmall _ | .groupTwice _ | .groupTooSmall .. => "ConfigInvalid"

/-- The text of a fault. -/
def message : SettingsFault → String
  | .unreadable path reason => s!"failed to read config {path}: {reason}"
  | .malformed path => s!"failed to parse config {path}"
  | .unwritable => "failed to serialize config"
  | .defaultTooSmall size =>
      s!"invalid config: default_page_size {size.toNat} is below the minimum of {minPageSize}"
  | .groupTwice group => s!"invalid config: group {GroupId.text group} is configured twice"
  | .groupTooSmall group size =>
      s!"invalid config: group {GroupId.text group} page_size {size.toNat} " ++
        s!"is below the minimum of {minPageSize}"

end SettingsFault

/-- Settings, or why there are none. -/
abbrev SettingsResult := Except SettingsFault

namespace Settings

/-- The settings of a store for which nothing is said. -/
def standard : Settings := ⟨4096, [], .immediate, 0, none, 30000, .failFast⟩

/-! ### Checking -/

/-- Checks the settings of groups, given the groups that came before them. -/
def checkGroups (seen : List GroupId) : List GroupSettings → SettingsResult Unit
  | [] => .ok ()
  | g :: rest =>
      if g.id ∈ seen then .error (.groupTwice g.id)
      else
        match g.pageSize with
        | some size =>
            if size.toNat < minPageSize then .error (.groupTooSmall g.id size)
            else checkGroups (g.id :: seen) rest
        | none => checkGroups (g.id :: seen) rest

/-- Checks that page sizes suffice and that no group is named twice. -/
def check (s : Settings) : SettingsResult Unit :=
  if s.defaultPageSize.toNat < minPageSize then .error (.defaultTooSmall s.defaultPageSize)
  else checkGroups [] s.groups

theorem checkGroups_ok_iff (seen : List GroupId) (gs : List GroupSettings) :
    checkGroups seen gs = .ok () ↔
      (∀ g ∈ gs, g.id ∉ seen ∧ ∀ size ∈ g.pageSize, minPageSize ≤ size.toNat) ∧
        (gs.map (·.id)).Nodup := by
  induction gs generalizing seen with
  | nil => simp [checkGroups]
  | cons g gs ih =>
      have hstep : checkGroups seen (g :: gs) = .ok () ↔
          g.id ∉ seen ∧ (∀ size ∈ g.pageSize, minPageSize ≤ size.toNat) ∧
            checkGroups (g.id :: seen) gs = .ok () := by
        cases hsize : g.pageSize with
        | none => by_cases hseen : g.id ∈ seen <;> simp [checkGroups, hsize, hseen]
        | some size =>
            by_cases hseen : g.id ∈ seen <;> by_cases hsmall : size.toNat < minPageSize <;>
              simp [checkGroups, hsize, hseen, hsmall, Nat.not_le.2, Nat.le_of_not_lt]
      rw [hstep, ih]
      simp only [List.mem_cons, not_or, forall_eq_or_imp, List.map_cons, List.nodup_cons,
        List.mem_map, not_exists, not_and]
      constructor
      · rintro ⟨h₁, h₂, h₃, h₄⟩
        exact ⟨⟨⟨h₁, h₂⟩, fun g' hg' => ⟨(h₃ g' hg').1.2, (h₃ g' hg').2⟩⟩,
          fun g' hg' => (h₃ g' hg').1.1, h₄⟩
      · rintro ⟨⟨⟨h₁, h₂⟩, h₃⟩, h₄, h₅⟩
        exact ⟨h₁, h₂, fun g' hg' => ⟨⟨h₄ g' hg', (h₃ g' hg').1⟩, (h₃ g' hg').2⟩, h₅⟩

/-- Settings pass the check just when every page size suffices and no group is named twice. -/
theorem check_ok_iff (s : Settings) :
    s.check = .ok () ↔
      minPageSize ≤ s.defaultPageSize.toNat ∧
        (∀ g ∈ s.groups, ∀ size ∈ g.pageSize, minPageSize ≤ size.toNat) ∧
        (s.groups.map (·.id)).Nodup := by
  unfold check
  split
  · rename_i h
    simp [Nat.not_le.2 h]
  · rename_i h
    rw [checkGroups_ok_iff]
    simp [Nat.le_of_not_lt h]

/-! ### What settings make -/

/-- The page size of a group. -/
def pageSize (s : Settings) (group : GroupId) : Nat :=
  (((s.groups.find? (·.id == group)).bind (·.pageSize)).getD s.defaultPageSize).toNat

/-- Pages in memory with every group that has settings. -/
def memory (s : Settings) : Result Memory :=
  s.groups.foldlM (fun m g => m.register g.id (s.pageSize g.id)) (.empty .standard)

/-- The switches of the groups that have settings. -/
def switches (s : Settings) : Switches :=
  s.groups.foldl (fun w g => w.register g.id g.logged) .empty

/-- How the log is opened, if a new one begins with a given number. -/
def logOptions (s : Settings) (startLsn : Lsn) : LogOptions := ⟨s.salt, startLsn, s.sync⟩

/-- How long a rollback waits before it is acknowledged, if not for ever. -/
def ackTimeoutDuration (s : Settings) : Option Duration :=
  s.ackTimeout.map fun ms => .ofMillis ms.toNat

/-- How long a transaction waits for an update. -/
def updateWaitDuration (s : Settings) : Duration := .ofMillis s.updateWait.toNat

end Settings

end PageLog
