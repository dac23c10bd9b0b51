import PageLog.Audit
import PageLog.Command.Arguments
import PageLog.Command.Site
import PageLog.Listing

/-!
# The commands

A command looks at a log file where it stands and prints a listing or an audit.  It ends with zero
if all is well, with one if it could not do its work, and with two if an audit found fault with the
log; a command line that makes no sense also ends it with two.

## Main definitions

* `Outcome` — what a command prints and how it ends.
* `Command.run` — a command.
* `runArguments` — the command line as a whole.
-/

namespace PageLog

/-- What a command prints and how it ends. -/
structure Outcome where
  /-- How it ends. -/
  code : Nat
  /-- What it prints. -/
  output : String
  /-- What it complains about. -/
  complaint : Option String
  deriving DecidableEq, Repr, Inhabited

namespace Outcome

/-- The command did its work. -/
def done (code : Nat) (output : String) : Outcome := ⟨code, output, none⟩

/-- The command could not do its work. -/
def failed (message : String) : Outcome := ⟨1, "", some ("error: " ++ message)⟩

end Outcome

/-- Lines, each with its end. -/
def linesText (lines : List String) : String := String.join (lines.map (· ++ "\n"))

/-- A report in the form asked for. -/
def Format.choose (f : Format) (lines : List String) (json : Report.Json) : String :=
  match f with
  | .text => linesText lines
  | .json => json.render ++ "\n"

namespace Command

/-- Takes a step on the log file under a path. -/
def withLog {α : Type} (site : Site) (path : String) (act : Act Disk α) : Except String α :=
  match site.find path with
  | some (.file content) =>
      match act (.ofFile { File.onSystem .whole with content := .ofBytes content }) with
      | .ok a _ => .ok a
      | .error e _ => .error e.message
  | _ => .error s!"WAL file {path} does not exist"

/-- The settings that count for an audit. -/
def settings (site : Site) (named : Option String) : SettingsResult Settings :=
  match named <|> site.standardSettings with
  | some path => Settings.loadIfThere path (site.find path)
  | none => .ok .standard

/-- The audit of a log. -/
def audit (site : Site) (log : String) (named : Option String) (policy : Option ReplayPolicy) :
    Except String Audit :=
  match settings site named with
  | .error e => .error e.message
  | .ok s => withLog site log (Audit.ofDisk s (policy.getD s.policy))

/-- What a command comes to. -/
def run (site : Site) (format : Format) : Command → Outcome
  | .inspect log hex =>
      match withLog site log Listing.ofDisk with
      | .error message => .failed message
      | .ok l => .done 0 (format.choose (l.lines hex) (l.json hex))
  | .replay log named policy =>
      match audit site log named policy with
      | .error message => .failed message
      | .ok a => .done (if a.isClean then 0 else 2) (format.choose a.lines a.json)

end Command

/-- How the program is used. -/
def usage : String :=
  linesText
    ["Usage: kindle [--format <text|json>] inspect-wal [--hex] <WAL>",
     "       kindle [--format <text|json>] replay [--config <FILE>] " ++
       "[--policy <fail-fast|quarantine>] <WAL>",
     "       kindle --version"]

/-- What a command line comes to. -/
def runArguments (site : Site) (args : List String) : Outcome :=
  match Request.ofArguments? site.ambient args with
  | none => ⟨2, "", some usage⟩
  | some .version => .done 0 "kindle 0.1.0\n"
  | some .help => .done 0 usage
  | some (.run format command) => command.run site format

end PageLog
