import PageLog.Toml.Scalar
import PageLog.Toml.Quoted

/-!
# Lines of a document

A document is a sequence of statements, each on a line of its own: an entry gives a value to a
key, a header says which table the entries after it belong to.  Keys may be dotted.  Values nest,
up to a fixed depth; an array may go over several lines.

Tables in braces are made up here, by the same rule that adds an entry to any other table.

## Main definitions

* `Reader` — a function that reads something from the beginning of a text.
* `Entries.insert?` — a table with one more entry.
* `value` — a value.
* `Statement`, `statements` — a line, and all lines of a document.
-/

namespace PageLog.Toml

/-! ### Adding entries to tables -/

/-- Whether a dotted key may lead through a table of this origin: only through tables that no
header opened and no braces hold. -/
def Origin.isPassable : Origin → Bool
  | .implied | .dotted => true
  | .inline | .header => false

/-- A table of a given origin with one more entry, whose key is `path` and then `key`.  Tables that
the path names and that are missing are added.  The last of them must have come about by dotted
keys, and the entry must be new. -/
def Entries.insert? (key : String) (value : Value) :
    (path : List String) → (origin : Origin) → (isRoot : Bool) → Entries → Option Entries
  | [], origin, isRoot, es =>
      if (isRoot || origin == .dotted) && (es.lookup key).isNone then some (es.put key value)
      else none
  | k :: path, _, _, es =>
      match es.lookup k with
      | none =>
          (insert? key value path .dotted false []).map fun sub => es.put k (.table .dotted sub)
      | some (.table origin sub) =>
          if origin.isPassable then
            (insert? key value path origin false sub).map fun sub => es.put k (.table origin sub)
          else none
      | some (.array true items) =>
          match items.getLast? with
          | some (.table origin sub) =>
              (insert? key value path origin false sub).map fun sub =>
                es.put k (.array true (items.dropLast ++ [.table origin sub]))
          | _ => none
      | some _ => none

/-- A table with the given entries added in order, each with its dotted key. -/
def Entries.insertAll? (es : Entries) (entries : List (List String × Value)) : Option Entries :=
  entries.foldlM (fun es (path, value) =>
    match path.getLast? with
    | some key => es.insert? key value path.dropLast .header true
    | none => none) es

/-! ### Blanks, comments and line ends -/

/-- A function that reads something from the beginning of a text and gives back what follows. -/
abbrev Reader (α : Type) := List Char → Option (α × List Char)

/-- The text behind blanks. -/
def skipBlanks (cs : List Char) : List Char := cs.dropWhile isBlank

/-- The text behind the rest of a line that holds nothing more than a comment. -/
def lineRest (cs : List Char) : Option (List Char) :=
  let cs := skipBlanks cs
  let cs := if cs.head? = some '#' then cs.dropWhile isFree else cs
  match cs with
  | [] => some []
  | '\n' :: cs => some cs
  | _ => none

/-- The text behind blanks, comments and line ends. -/
def skipLines : List Char → List Char
  | [] => []
  | c :: cs =>
      if isBlank c || c == '\n' then skipLines cs
      else if c = '#' then skipLines (cs.dropWhile isFree)
      else c :: cs
termination_by cs => cs.length
decreasing_by
  · simp
  · have := (List.dropWhile_sublist isFree (l := cs)).length_le
    simp only [List.length_cons]
    omega

/-! ### Keys -/

/-- Whether a character may stand in a key without quotes. -/
def isKeyChar (c : Char) : Bool := c.isAlphanum || c == '_' || c == '-'

/-- One part of a dotted key. -/
def keyPart : Reader String
  | '"' :: cs => (shortText '"' cs).map fun (text, rest) => (.ofList text, rest)
  | '\'' :: cs => (shortText '\'' cs).map fun (text, rest) => (.ofList text, rest)
  | cs =>
      match cs.takeWhile isKeyChar with
      | [] => none
      | run => some (.ofList run, cs.dropWhile isKeyChar)

/-- The parts of a dotted key, with blanks around each. -/
def keyParts (cs : List Char) : Option (List String × List Char) :=
  match keyPart (skipBlanks cs) with
  | none => none
  | some (part, rest) =>
      match skipBlanks rest with
      | '.' :: rest =>
          if _ : rest.length < cs.length then
            (keyParts rest).map fun (parts, rest) => (part :: parts, rest)
          else none
      | rest => some ([part], rest)
termination_by cs.length

/-- How many parts a key may have, and how deep values may nest, at most, plus one. -/
def depthLimit : Nat := 80

/-- A dotted key. -/
def key (cs : List Char) : Option (List String × List Char) :=
  match keyParts cs with
  | some (parts, rest) => if parts.length < depthLimit then some (parts, rest) else none
  | none => none

/-! ### Values -/

/-- Items from behind an opening bracket to the closing one, with commas between them.  The last
item may have a comma behind it. -/
def items (item : Reader Value) (cs : List Char) : Option (List Value × List Char) :=
  match skipLines cs with
  | ']' :: rest => some ([], rest)
  | start =>
      match item start with
      | none => none
      | some (value, rest) =>
          match skipLines rest with
          | ']' :: rest => some ([value], rest)
          | ',' :: rest =>
              if _ : rest.length < cs.length then
                (items item rest).map fun (values, rest) => (value :: values, rest)
              else none
          | _ => none
termination_by cs.length

/-- An entry, up to its value. -/
def entry (item : Reader Value) (cs : List Char) :
    Option ((List String × Value) × List Char) := do
  let (path, rest) ← key cs
  let '=' :: rest := rest | none
  let (value, rest) ← item (skipBlanks rest)
  return ((path, value), rest)

/-- Entries up to a closing brace, with commas between them, at least one. -/
def entries (item : Reader Value) (cs : List Char) :
    Option (List (List String × Value) × List Char) :=
  match entry item cs with
  | none => none
  | some (e, rest) =>
      match skipBlanks rest with
      | '}' :: rest => some ([e], rest)
      | ',' :: rest =>
          if _ : rest.length < cs.length then
            (entries item rest).map fun (es, rest) => (e :: es, rest)
          else none
      | _ => none
termination_by cs.length

/-- The table in braces, from behind the opening one. -/
def braces (item : Reader Value) (cs : List Char) : Option (Value × List Char) :=
  match skipBlanks cs with
  | '}' :: rest => some (.table .inline [], rest)
  | cs => do
      let (es, rest) ← entries item cs
      let table ← Entries.insertAll? [] es
      return (.table .inline table, rest)

/-- The value at the beginning of a text, in which arrays and tables nest up to a given depth. -/
def value : (depth : Nat) → Reader Value
  | depth, cs =>
      match cs, depth with
      | '"' :: _, _ | '\'' :: _, _ => (quoted cs).map fun (s, rest) => (.text s, rest)
      | '[' :: rest, depth + 1 =>
          (items (value depth) rest).map fun (vs, rest) => (.array false vs, rest)
      | '{' :: rest, depth + 1 => braces (value depth) rest
      | _, _ => scalar cs

/-! ### Statements -/

/-- A line of a document. -/
inductive Statement where
  /-- A value for a dotted key. -/
  | entry (path : List String) (value : Value)
  /-- A header of a table, or of one more table of an array. -/
  | header (path : List String) (repeated : Bool)
  deriving Inhabited

/-- One statement, without the rest of its line. -/
def statement : Reader Statement
  | '[' :: '[' :: cs => do
      let (path, rest) ← key cs
      let ']' :: ']' :: rest := rest | none
      return (.header path true, rest)
  | '[' :: cs => do
      let (path, rest) ← key cs
      let ']' :: rest := rest | none
      return (.header path false, rest)
  | cs => do
      let ((path, value), rest) ← entry (value (depthLimit - 1)) cs
      return (.entry path value, rest)

/-- The statements of a document. -/
def statements (cs : List Char) : Option (List Statement) :=
  match skipLines cs with
  | [] => some []
  | start =>
      match statement start with
      | none => none
      | some (s, rest) =>
          match lineRest rest with
          | none => none
          | some rest =>
              if _ : rest.length < cs.length then (s :: ·) <$> statements rest else none
termination_by cs.length

end PageLog.Toml
