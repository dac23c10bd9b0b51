/-!
# Values of a TOML document

A value is a scalar, an array or a table.  Tables and arrays remember how they were written, because
that decides what later lines of the document may still add to them.

## Main definitions

* `Origin` — how a table came about.
* `Value` and `Entries` — a value, and what a table holds.
* `Value.record?` — a value read as a record with known fields.
-/

namespace PageLog.Toml

/-- How a table came about. -/
inductive Origin where
  /-- It was written in braces, and is complete. -/
  | inline
  /-- A header opened it. -/
  | header
  /-- A header of a table inside it named it. -/
  | implied
  /-- A dotted key named it. -/
  | dotted
  deriving DecidableEq, Repr, Inhabited

/-- A value.  Numbers with a fraction and moments are kept as they are written. -/
inductive Value where
  /-- An integer. -/
  | integer (n : Int)
  /-- A number with a fraction or an exponent, or none of the finite ones. -/
  | float (text : String)
  /-- True or false. -/
  | boolean (b : Bool)
  /-- A date, a time of day, or both. -/
  | moment (text : String)
  /-- A text. -/
  | text (s : String)
  /-- An array; `growing` says that headers in double brackets make it up. -/
  | array (growing : Bool) (items : List Value)
  /-- A table. -/
  | table (origin : Origin) (entries : List (String × Value))
  deriving Inhabited

/-- What a table holds, by key. -/
abbrev Entries := List (String × Value)

/-- The entries with `value` under `key`, in place of what was there. -/
def Entries.put (key : String) (value : Value) : Entries → Entries
  | [] => [(key, value)]
  | (k, v) :: rest => if k = key then (key, value) :: rest else (k, v) :: Entries.put key value rest

/-- A value read as a record whose fields have the given names in the given order: a table gives
its fields by name, an array by position, and a moment gives none. -/
def Value.record? (names : List String) : Value → Option Entries
  | .table _ es => some es
  | .array _ items => some (names.zip items)
  | .moment _ => some []
  | _ => none

end PageLog.Toml
