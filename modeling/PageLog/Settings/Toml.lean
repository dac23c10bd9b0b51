import PageLog.Settings.Basic
import PageLog.Toml.Document
import PageLog.Toml.Printer

/-!
# Settings in TOML

Settings are read from a TOML document.  What is not said there is as in the standard settings,
and keys that mean nothing here are passed over; a value of the wrong kind or out of range makes the
whole document unusable.  A record may be given as a table or as an array of its fields in order,
and a name also as a table whose only key is the name, with an empty table or array under it.

## Main definitions

* `Settings.ofEntries?` — the settings that a table gives.
* `Settings.parse` — the settings that a document gives, checked.
* `Settings.write` — a document that gives the settings.
* `Stored`, `Settings.load`, `Settings.loadIfThere` — settings from a file.
-/

namespace PageLog.Settings

open Toml (Value Entries Written Section)

/-! ### Reading values -/

/-- A field of a record, with a default for when it is missing. -/
def field? {α : Type} (es : Entries) (key : String) (read : Value → Option α) (absent : α) :
    Option α :=
  match es.lookup key with
  | some value => read value
  | none => some absent

/-- An integer from `low` up to `high`. -/
def integer? (low high : Int) : Value → Option Int
  | .integer n => if low ≤ n ∧ n ≤ high then some n else none
  | _ => none

/-- A natural number of at most 32 bits. -/
def word32? (v : Value) : Option UInt32 :=
  (integer? 0 4294967295 v).map fun n => UInt32.ofNat n.toNat

/-- A natural number of at most 64 bits. -/
def word64? (v : Value) : Option UInt64 :=
  (integer? 0 18446744073709551615 v).map fun n => UInt64.ofNat n.toNat

/-- A group. -/
def group? (v : Value) : Option GroupId :=
  (integer? (-2147483648) 2147483647 v).map Int32.ofInt

/-- True or false. -/
def boolean? : Value → Option Bool
  | .boolean b => some b
  | _ => none

/-- One of several names. -/
def name? {α : Type} (ofName? : String → Option α) : Value → Option α
  | .text s => ofName? s
  | .table _ [(s, .table _ [])] | .table _ [(s, .array _ [])] => ofName? s
  | _ => none

/-- The items of an array. -/
def items? : Value → Option (List Value)
  | .array _ vs => some vs
  | _ => none

/-! ### Reading settings -/

/-- The settings of a group. -/
def groupSettings? (v : Value) : Option GroupSettings := do
  let es ← v.record? ["id", "page_size", "wal_enabled"]
  let id ← es.lookup "id"
  return {
    id := ← group? id
    pageSize := ← field? es "page_size" (fun v => some <$> word32? v) none
    logged := ← field? es "wal_enabled" boolean? true }

/-- The settings that a table gives. -/
def ofEntries? (es : Entries) : Option Settings := do
  let part (key : String) (names : List String) : Option Entries :=
    field? es key (Value.record? names) []
  let wal ← part "wal" ["sync", "salt"]
  let tx ← part "tx" ["ack_timeout_ms", "update_wait_timeout_ms"]
  let recovery ← part "recovery" ["policy"]
  return {
    defaultPageSize := ← field? es "default_page_size" word32? standard.defaultPageSize
    groups := ← field? es "groups" (fun v => (items? v).bind (·.mapM groupSettings?)) []
    sync := ← field? wal "sync" (name? SyncMode.ofSetting?) standard.sync
    salt := ← field? wal "salt" word64? standard.salt
    ackTimeout := ← field? tx "ack_timeout_ms" (fun v => some <$> word64? v) none
    updateWait := ← field? tx "update_wait_timeout_ms" word64? standard.updateWait
    policy := ← field? recovery "policy" (name? ReplayPolicy.ofSetting?) standard.policy }

/-- The settings that a document gives; `path` tells where it was found. -/
def parse (path document : String) : SettingsResult Settings :=
  match (Entries.parse? document).bind ofEntries? with
  | none => .error (.malformed path)
  | some s =>
      match s.check with
      | .ok () => .ok s
      | .error e => .error e

/-! ### Writing settings -/

/-- The section of a group. -/
def groupSection (g : GroupSettings) : Section where
  heading := some "[[groups]]"
  entries :=
    [("id", .small g.id)] ++
      (match g.pageSize with
        | some size => [("page_size", .number size.toNat)]
        | none => []) ++
      [("wal_enabled", .boolean g.logged)]

/-- The settings, section by section. -/
def sections (s : Settings) : List Section :=
  [{ heading := none
     entries := ("default_page_size", .number s.defaultPageSize.toNat) ::
      if s.groups.isEmpty then [("groups", .nothing)] else [] }] ++
    s.groups.map groupSection ++
    [{ heading := some "[wal]"
       entries := [("sync", .name s.sync.setting), ("salt", .number s.salt.toNat)] },
     { heading := some "[tx]"
       entries := (match s.ackTimeout with
         | some ms => [("ack_timeout_ms", .number ms.toNat)]
         | none => []) ++ [("update_wait_timeout_ms", .number s.updateWait.toNat)] },
     { heading := some "[recovery]"
       entries := [("policy", .name s.policy.setting)] }]

/-- A document that gives the settings. -/
def write (s : Settings) : SettingsResult String :=
  match Toml.writeSections? s.sections with
  | some document => .ok document
  | none => .error .unwritable

/-- Whether the settings can be read back from the document that gives them, if there is one. -/
def readsBack (s : Settings) : Option Bool :=
  match s.write with
  | .ok document => some ((parse "<inline>" document).toOption == some s)
  | .error _ => none

end PageLog.Settings

namespace PageLog

/-! ### Settings in files -/

/-- What is found under a path. -/
inductive Stored where
  /-- A file. -/
  | file (content : Bytes)
  /-- A directory. -/
  | directory
  deriving DecidableEq, Repr, Inhabited

namespace Settings

/-- The settings in what was found under `path`, if anything was. -/
def load (path : String) : Option Stored → SettingsResult Settings
  | none => .error (.unreadable path "No such file or directory (os error 2)")
  | some .directory => .error (.unreadable path "Is a directory (os error 21)")
  | some (.file content) =>
      match String.fromUTF8? ⟨content.toArray⟩ with
      | some document => parse path document
      | none => .error (.unreadable path "stream did not contain valid UTF-8")

/-- The settings in what was found under `path`, or the standard ones if nothing was. -/
def loadIfThere (path : String) : Option Stored → SettingsResult Settings
  | none => .ok standard
  | found => load path found

end Settings

end PageLog
