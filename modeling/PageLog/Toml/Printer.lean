import PageLog.Toml.Value

/-!
# Writing sections

A document is written section by section: a heading, if the section has one, and its entries, a
line each.  Sections are set apart by blank lines.  An integer that 64 bits with a sign do not hold
cannot be written.

## Main definitions

* `Written` — what can be written behind a key.
* `Section`, `Section.write?` — a heading with its entries.
* `writeSections?` — a document.
-/

namespace PageLog.Toml

/-- What can be written behind a key. -/
inductive Written where
  /-- A natural number. -/
  | number (n : Nat)
  /-- An integer of at most 32 bits. -/
  | small (n : Int32)
  /-- True or false. -/
  | boolean (b : Bool)
  /-- A name, which needs no escapes. -/
  | name (s : String)
  /-- An array without items. -/
  | nothing
  deriving DecidableEq, Repr, Inhabited

/-- The value as it stands in a document. -/
def Written.text? : Written → Option String
  | .number n => if n ≤ 9223372036854775807 then some (toString n) else none
  | .small n => some (toString n.toInt)
  | .boolean b => some (if b then "true" else "false")
  | .name s => some ("\"" ++ s ++ "\"")
  | .nothing => some "[]"

/-- A heading with its entries. -/
structure Section where
  /-- The heading, unless the section begins the document. -/
  heading : Option String
  /-- The entries, in order. -/
  entries : List (String × Written)
  deriving DecidableEq, Repr, Inhabited

/-- A section as it stands in a document. -/
def Section.write? (s : Section) : Option String := do
  let lines ← s.entries.mapM fun (key, value) => do
    return key ++ " = " ++ (← value.text?) ++ "\n"
  match s.heading with
  | some heading => return heading ++ "\n" ++ String.join lines
  | none => return String.join lines

/-- A document that consists of the given sections. -/
def writeSections? (ss : List Section) : Option String := do
  return "\n".intercalate (← ss.mapM Section.write?)

end PageLog.Toml
