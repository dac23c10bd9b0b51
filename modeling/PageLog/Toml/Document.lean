import PageLog.Toml.Statement

/-!
# Documents

The statements of a document make up one table.  A header opens a table in it, by a path from the
root, and the entries up to the next header go there.  No table is opened twice, and none that was
written in another way is opened at all; but a table that only came about because a header named a
table inside it may still be opened once.

## Main definitions

* `Block` — a header with its entries.
* `Entries.place?` — a table with one more block.
* `Entries.parse?` — the table that a document stands for.
-/

namespace PageLog.Toml

/-- A header with the entries that follow it. -/
structure Block where
  /-- The parts of the header's key. -/
  path : List String
  /-- Whether the header adds a table to an array. -/
  repeated : Bool
  /-- The entries, each with its dotted key. -/
  entries : List (List String × Value)
  deriving Inhabited

/-- The entries in front of the first header, and the blocks. -/
def Block.ofStatements : List Statement → List (List String × Value) × List Block
  | [] => ([], [])
  | .entry path value :: rest =>
      let (entries, blocks) := ofStatements rest
      ((path, value) :: entries, blocks)
  | .header path repeated :: rest =>
      let (entries, blocks) := ofStatements rest
      ([], ⟨path, repeated, entries⟩ :: blocks)

/-- A table in which `change` is carried out on the table at the end of a path of header keys.
Missing tables on the way are added; the way leads through the last table of an array. -/
def Entries.alter? (change : Entries → Option Entries) : List String → Entries → Option Entries
  | [], es => change es
  | k :: path, es =>
      match es.lookup k with
      | none => (alter? change path []).map fun sub => es.put k (.table .implied sub)
      | some (.table origin sub) =>
          if origin = .inline then none
          else (alter? change path sub).map fun sub => es.put k (.table origin sub)
      | some (.array true items) =>
          match items.getLast? with
          | some (.table origin sub) =>
              (alter? change path sub).map fun sub =>
                es.put k (.array true (items.dropLast ++ [.table origin sub]))
          | _ => none
      | some _ => none

/-- A table with a block whose header has the last part `k`. -/
def Entries.open? (b : Block) (k : String) (es : Entries) : Option Entries :=
  match b.repeated, es.lookup k with
  | false, none => (insertAll? [] b.entries).map fun sub => es.put k (.table .header sub)
  | false, some (.table .implied sub) =>
      (insertAll? sub b.entries).map fun sub => es.put k (.table .header sub)
  | true, none =>
      (insertAll? [] b.entries).map fun sub => es.put k (.array true [.table .header sub])
  | true, some (.array true items) =>
      (insertAll? [] b.entries).map fun sub =>
        es.put k (.array true (items ++ [.table .header sub]))
  | _, some _ => none

/-- The table of a document with one more block. -/
def Entries.place? (es : Entries) (b : Block) : Option Entries :=
  match b.path.getLast? with
  | some k => alter? (open? b k) b.path.dropLast es
  | none => none

/-- The table that statements stand for. -/
def Entries.ofStatements? (ss : List Statement) : Option Entries := do
  let (entries, blocks) := Block.ofStatements ss
  let root ← insertAll? [] entries
  blocks.foldlM place? root

/-- The characters of a document, without the mark that may stand in front of them. -/
def withoutMark : List Char → List Char
  | '\ufeff' :: cs => cs
  | cs => cs

/-- The table that a document stands for. -/
def Entries.parse? (document : String) : Option Entries := do
  let cs ← unifyLines (withoutMark document.toList)
  ofStatements? (← statements cs)

end PageLog.Toml
