import PageLog.Text

/-!
# Quoted texts

A text stands between quotes of one of two kinds: between double quotes a backslash begins an
escape, between single quotes it stands for itself.  Three quotes on either side allow the text to
go over several lines, and to hold quotes as long as no three of them follow each other.

Line ends are single line feeds here; `unifyLines` makes them so.

## Main definitions

* `unifyLines` — a document with one kind of line end.
* `escape?` — what an escape stands for.
* `shortText`, `longText` — the text up to its closing quotes.
* `quoted` — the text at the beginning of a document, whichever way it is quoted.
-/

namespace PageLog.Toml

/-- Whether every carriage return is the beginning of a line end. -/
def endsLines : List Char → Bool
  | [] => true
  | '\r' :: '\n' :: rest => endsLines rest
  | '\r' :: _ => false
  | _ :: rest => endsLines rest

/-- The characters of a document with every line end a single line feed.  A carriage return
belongs to a line end and stands nowhere else. -/
def unifyLines (cs : List Char) : Option (List Char) :=
  if endsLines cs then some (cs.filter (· != '\r')) else none

/-- Whether a character is a blank. -/
def isBlank (c : Char) : Bool := c == ' ' || c == '\t'

/-- Whether a character may stand in a comment or a text: all but control characters may. -/
def isFree (c : Char) : Bool := c == '\t' || (' ' ≤ c && c != '\x7f')

/-- The character whose number is given by the first `n` characters of `cs`, all hexadecimal
digits. -/
def numbered? (n : Nat) (cs : List Char) : Option Char :=
  let digits := cs.take n
  if digits.length = n ∧ digits.all (fun c => (hexValue? c).isSome) then
    let code := digits.foldl (fun v c => v * 16 + (hexValue? c).getD 0) 0
    if code.isValidChar then some (Char.ofNat code) else none
  else none

/-- What an escape stands for, and of how many characters it consists, given what follows the
backslash. -/
def escape? : List Char → Option (Char × Nat)
  | 'b' :: _ => some ('\x08', 1)
  | 't' :: _ => some ('\t', 1)
  | 'n' :: _ => some ('\n', 1)
  | 'f' :: _ => some ('\x0c', 1)
  | 'r' :: _ => some ('\r', 1)
  | '"' :: _ => some ('"', 1)
  | '\\' :: _ => some ('\\', 1)
  | 'u' :: cs => (numbered? 4 cs).map (·, 5)
  | 'U' :: cs => (numbered? 8 cs).map (·, 9)
  | _ => none

/-- The text on one line up to the closing `quote`, and what follows.  The characters before it
are given last first. -/
def shortTextAfter (quote : Char) (before : List Char) :
    List Char → Option (List Char × List Char)
  | [] => none
  | c :: cs =>
      if c = quote then some (before.reverse, cs)
      else if c = '\\' ∧ quote = '"' then
        match escape? cs with
        | none => none
        | some (e, n) => shortTextAfter quote (e :: before) (cs.drop n)
      else if isFree c then shortTextAfter quote (c :: before) cs
      else none
termination_by cs => cs.length
decreasing_by all_goals simp only [List.length_drop, List.length_cons]; omega

/-- The text on one line up to the closing `quote`, and what follows. -/
def shortText (quote : Char) (cs : List Char) : Option (List Char × List Char) :=
  shortTextAfter quote [] cs

/-- The text up to three closing quotes, and what follows; the characters before it are given last
first.  Up to two more quotes in front of the closing ones belong to the text.  A backslash at the
end of a line leaves out the line end and all blanks and line ends after it. -/
def longText (quote : Char) (before : List Char) : List Char → Option (List Char × List Char)
  | [] => none
  | c :: cs =>
      let quotes := ((c :: cs).takeWhile (· == quote)).length
      if 3 ≤ quotes then
        let taken := min quotes 5
        some (before.reverse ++ List.replicate (taken - 3) quote, cs.drop (taken - 1))
      else if c = '\\' ∧ quote = '"' then
        let gap := cs.takeWhile fun c => isBlank c || c == '\n'
        if gap.contains '\n' then longText quote before (cs.drop gap.length)
        else
          match escape? cs with
          | none => none
          | some (e, n) => longText quote (e :: before) (cs.drop n)
      else if isFree c || c == '\n' then longText quote (c :: before) cs
      else none
termination_by cs => cs.length
decreasing_by all_goals simp only [List.length_drop, List.length_cons]; omega

/-- The text behind three opening quotes; a line end right behind them is left out. -/
def longTextBody (quote : Char) : List Char → Option (List Char × List Char)
  | '\n' :: cs => longText quote [] cs
  | cs => longText quote [] cs

/-- The quoted text at the beginning of `cs`, and what follows. -/
def quoted : List Char → Option (String × List Char)
  | '"' :: '"' :: '"' :: cs => (longTextBody '"' cs).map fun (text, rest) => (.ofList text, rest)
  | '\'' :: '\'' :: '\'' :: cs =>
      (longTextBody '\'' cs).map fun (text, rest) => (.ofList text, rest)
  | '"' :: cs => (shortText '"' cs).map fun (text, rest) => (.ofList text, rest)
  | '\'' :: cs => (shortText '\'' cs).map fun (text, rest) => (.ofList text, rest)
  | _ => none

end PageLog.Toml
