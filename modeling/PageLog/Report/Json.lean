import PageLog.Text

/-!
# Reports in JSON

Reports are written in JSON over several lines, with two blanks for each level of nesting.  Empty
lists and records stay on one line.

## Main definitions

* `Json` — a value.
* `quotedText` — a text between double quotes.
* `Json.render` — a value as it is written.
-/

namespace PageLog.Report

/-- A value. -/
inductive Json where
  /-- Nothing. -/
  | null
  /-- True or false. -/
  | boolean (b : Bool)
  /-- An integer. -/
  | number (n : Int)
  /-- A text. -/
  | text (s : String)
  /-- A list. -/
  | list (items : List Json)
  /-- A record; its fields keep their order. -/
  | record (fields : List (String × Json))
  deriving Inhabited

/-- A character as it stands between double quotes. -/
def escapedChar (c : Char) : List Char :=
  match c with
  | '"' => ['\\', '"']
  | '\\' => ['\\', '\\']
  | '\n' => ['\\', 'n']
  | '\r' => ['\\', 'r']
  | '\t' => ['\\', 't']
  | '\x08' => ['\\', 'b']
  | '\x0c' => ['\\', 'f']
  | c => if c.toNat < 32 then '\\' :: 'u' :: (hexDigits 4 c.toNat).toList else [c]

/-- A text between double quotes. -/
def quotedText (s : String) : String :=
  String.ofList ('"' :: s.toList.flatMap escapedChar ++ ['"'])

/-- Lines between an opening and a closing bracket, the lines indented by one level more than the
brackets, which stand at `level`. -/
def bracketed (level : Nat) (opening closing : String) (lines : List String) : String :=
  let blanks (n : Nat) := String.ofList (List.replicate (2 * n) ' ')
  if lines.isEmpty then opening ++ closing
  else
    opening ++ "\n" ++ ",\n".intercalate (lines.map (blanks (level + 1) ++ ·)) ++ "\n" ++
      blanks level ++ closing

mutual

/-- A value that begins on a line at the given level. -/
def Json.renderAt (level : Nat) : Json → String
  | .null => "null"
  | .boolean b => if b then "true" else "false"
  | .number n => toString n
  | .text s => quotedText s
  | .list items => bracketed level "[" "]" (itemTexts (level + 1) items)
  | .record fields => bracketed level "\x7b" "\x7d" (fieldTexts (level + 1) fields)

/-- The values of a list. -/
def itemTexts (level : Nat) : List Json → List String
  | [] => []
  | item :: rest => item.renderAt level :: itemTexts level rest

/-- The fields of a record. -/
def fieldTexts (level : Nat) : List (String × Json) → List String
  | [] => []
  | (key, value) :: rest =>
      (quotedText key ++ ": " ++ value.renderAt level) :: fieldTexts level rest

end

/-- A value as it is written. -/
def Json.render (j : Json) : String := j.renderAt 0

/-- A number of up to 64 bits. -/
def Json.word (n : UInt64) : Json := .number n.toNat

/-- A value or nothing. -/
def Json.optional {α : Type} (write : α → Json) : Option α → Json
  | some a => write a
  | none => .null

end PageLog.Report
