import PageLog.Recovery

/-!
# Command lines

The program lists a log or audits it.  Options begin with two hyphens and may stand anywhere behind
the command they belong to; the output format may also be given in front of the command, and if it
is given in both places the later one counts.  No option is given twice in one place.  An option's
value is the argument behind it or stands behind an equals sign.  Two hyphens alone end the
options.

Arguments are read from left to right, so that a request for the version is granted as soon as it
is met, whatever follows, but not behind a fault.

## Main definitions

* `Format`, `Command` — what is asked for.
* `Request` — a command with its format, or a question about the program.
* `Request.ofArguments?` — the request that a command line makes.
-/

namespace PageLog

/-- The form of the output. -/
inductive Format where
  /-- For people. -/
  | text
  /-- For programs. -/
  | json
  deriving DecidableEq, Repr, Inhabited

/-- The format with a given name. -/
def Format.ofName? : String → Option Format
  | "text" => some .text
  | "json" => some .json
  | _ => none

/-- A command. -/
inductive Command where
  /-- List a log, with the bytes of its records if asked for. -/
  | inspect (log : String) (hex : Bool)
  /-- Audit a log, with settings from a file and a policy other than the one set there. -/
  | replay (log : String) (settings : Option String) (policy : Option ReplayPolicy)
  deriving DecidableEq, Repr, Inhabited

/-- What a command line asks for. -/
inductive Request where
  /-- The version of the program. -/
  | version
  /-- How the program is used. -/
  | help
  /-- A command. -/
  | run (format : Format) (command : Command)
  deriving DecidableEq, Repr, Inhabited

/-- The command that arguments belong to. -/
inductive Place where
  /-- No command was named yet. -/
  | front
  /-- Listing a log. -/
  | inspect
  /-- Auditing a log. -/
  | replay
  deriving DecidableEq, Repr, Inhabited

/-- What was read of a command line. -/
structure Draft where
  /-- The command, as far as it was named. -/
  place : Place
  /-- The format given in front of the command. -/
  outerFormat : Option Format
  /-- The format given in this place. -/
  format : Option Format
  /-- The log. -/
  log : Option String
  /-- Whether the bytes of records were asked for. -/
  hex : Bool
  /-- The file with the settings. -/
  settings : Option String
  /-- The policy. -/
  policy : Option ReplayPolicy
  deriving DecidableEq, Repr, Inhabited

namespace Draft

/-- Nothing was read yet. -/
def empty : Draft := ⟨.front, none, none, none, false, none, none⟩

/-- The draft once the command is named. -/
def enter (d : Draft) (place : Place) : Draft :=
  { d with place, outerFormat := d.format, format := none }

/-- A path, which must not be empty. -/
def path? (s : String) : Option String := if s.isEmpty then none else some s

/-- The draft with an operand, of which a command has one. -/
def operand? (d : Draft) (s : String) : Option Draft :=
  if d.place = .front ∨ d.log.isSome then none
  else (path? s).map fun log => { d with log := some log }

/-- An option that has a value: the draft with the option set to a given value. -/
def valueOption? (d : Draft) : String → Option (String → Option Draft)
  | "format" => some fun s =>
      if d.format.isSome then none
      else (Format.ofName? s).map fun f => { d with format := some f }
  | "config" =>
      if d.place ≠ .replay then none
      else some fun s =>
        if d.settings.isSome then none
        else (path? s).map fun p => { d with settings := some p }
  | "policy" =>
      if d.place ≠ .replay then none
      else some fun s =>
        if d.policy.isSome then none
        else (ReplayPolicy.ofSetting? s).map fun p => { d with policy := some p }
  | _ => none

/-- An option without a value: the draft with the option. -/
def flag? (d : Draft) : String → Option Draft
  | "hex" => if d.place ≠ .inspect ∨ d.hex then none else some { d with hex := true }
  | _ => none

/-- The request of a command line that was read to its end; `ambient` names a file with settings
that counts if the command line names none. -/
def finish? (ambient : Option String) (d : Draft) : Option Request := do
  let format := (d.format <|> d.outerFormat).getD .text
  match d.place with
  | .front => none
  | .inspect => return .run format (.inspect (← d.log) d.hex)
  | .replay =>
      let settings ←
        match d.settings, ambient with
        | some p, _ => some (some p)
        | none, some s => (path? s).map some
        | none, none => some none
      return .run format (.replay (← d.log) settings d.policy)

end Draft

/-! ### Arguments -/

/-- The kinds of argument. -/
inductive Argument where
  /-- Two hyphens alone. -/
  | endOfOptions
  /-- An option of two hyphens, with the value that stands behind an equals sign. -/
  | long (name : String) (value : Option String)
  /-- One hyphen with letters behind it. -/
  | short (letter : Char)
  /-- Anything else; also a hyphen alone. -/
  | plain
  deriving DecidableEq, Repr, Inhabited

/-- The kind of an argument. -/
def Argument.ofString (s : String) : Argument :=
  match s.toList with
  | ['-', '-'] => .endOfOptions
  | '-' :: '-' :: cs =>
      let name := String.ofList (cs.takeWhile (· ≠ '='))
      match cs.dropWhile (· ≠ '=') with
      | _ :: value => .long name (some (String.ofList value))
      | [] => .long name none
  | '-' :: c :: _ => .short c
  | _ => .plain

/-- A question about the program itself, which has the same name in long and short. -/
def question? (place : Place) : Argument → Option Request
  | .long "help" none | .short 'h' => some .help
  | .long "version" none | .short 'V' => if place = .front then some .version else none
  | _ => none

namespace Draft

/-- The request that the remaining arguments make. -/
def read? (ambient : Option String) (d : Draft) : List String → Option Request
  | [] => d.finish? ambient
  | arg :: rest =>
      match Argument.ofString arg with
      | .plain =>
          if d.place ≠ .front then
            (d.operand? arg).bind fun d => d.read? ambient rest
          else if arg = "inspect-wal" then (d.enter .inspect).read? ambient rest
          else if arg = "replay" then (d.enter .replay).read? ambient rest
          else none
      | .endOfOptions => (rest.foldlM operand? d).bind (finish? ambient)
      | .short c => question? d.place (.short c)
      | .long name attached =>
          match d.valueOption? name, attached with
          | some set, some value => (set value).bind fun d => d.read? ambient rest
          | some set, none =>
              match rest with
              | value :: rest =>
                  if Argument.ofString value = .plain then
                    (set value).bind fun d => d.read? ambient rest
                  else none
              | [] => none
          | none, some _ => none
          | none, none =>
              match d.flag? name with
              | some d => d.read? ambient rest
              | none => question? d.place (.long name none)

end Draft

/-- The request that a command line makes, if it is a proper one; `ambient` names a file with
settings that counts if the command line names none. -/
def Request.ofArguments? (ambient : Option String) (args : List String) : Option Request :=
  Draft.empty.read? ambient args

end PageLog
