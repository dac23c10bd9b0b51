import PageLog.Page.Node

/-!
# Page formats

Node pages may come in several versions of their format, and a page or a record says in which one
it is.  All versions lay a node out in the same way; they differ in how many slots they allow a
new page number to go to and in whether they blank a page before they put their header on it.

## Main definitions

* `NodeFormat` — one version of the format.
* `Formats` — the versions that are known.
* `Formats.lookup`, `Formats.ofPage`, `Formats.latest` — finding the version to use.
-/

namespace PageLog

/-- A version of the format of node pages. -/
structure NodeFormat where
  /-- The page type it puts on pages. -/
  ioType : UInt16
  /-- The version it puts on pages. -/
  version : UInt16
  /-- The most slots it fills, if not all that fit. -/
  cap : Option Nat
  /-- Whether it puts its header on a page without blanking it. -/
  headerOnly : Bool
  deriving DecidableEq, Repr, Inhabited

namespace NodeFormat

/-- The first version. -/
def v1 : NodeFormat := ⟨nodeType, 1, none, false⟩

/-- How many slots the format fills on a page. -/
def capacity (f : NodeFormat) (pageSize : Nat) : Nat :=
  match f.cap with
  | none => Node.capacity pageSize
  | some cap => min (Node.capacity pageSize) cap

/-- Makes a page a node without slots in this format. -/
def initNewPage (f : NodeFormat) (page : PageId) (pageSize : Nat) : Act Bytes Unit := do
  if f.headerOnly then
    PageHeader.write ⟨f.ioType, f.version, page⟩
  else
    Node.format ⟨f.ioType, f.version, page⟩ pageSize

/-- Puts a page number into the first slot behind those in use, as far as the format fills them. -/
def add (f : NodeFormat) (data : PageId) (pageSize : Nat) : Act Bytes Nat :=
  Node.addWithin (f.capacity pageSize) data pageSize

end NodeFormat

/-- The known versions of the format of node pages, in ascending order of their numbers. -/
structure Formats where
  /-- The versions. -/
  nodes : List NodeFormat
  deriving DecidableEq, Repr, Inhabited

namespace Formats

/-- Only the first version is known. -/
def standard : Formats := ⟨[.v1]⟩

/-- A list of versions in ascending order, with one more. -/
def insertInOrder (f : NodeFormat) : List NodeFormat → List NodeFormat
  | [] => [f]
  | g :: rest => if f.version < g.version then f :: g :: rest else g :: insertInOrder f rest

/-- Makes a further version known. -/
def register (fs : Formats) (f : NodeFormat) : Result Formats :=
  if f.ioType ≠ nodeType then .error (.invalid .notNodeFormat)
  else if fs.nodes.any (·.version == f.version) then .error (.invalid .formatRegistered)
  else .ok ⟨insertInOrder f fs.nodes⟩

/-- Makes several versions known, and tells how each was taken. -/
def registerAll (fs : Formats) : List NodeFormat → List (Result Unit) × Formats
  | [] => ([], fs)
  | f :: rest =>
      match fs.register f with
      | .ok fs =>
          let (results, fs) := fs.registerAll rest
          (.ok () :: results, fs)
      | .error e =>
          let (results, fs) := fs.registerAll rest
          (.error e :: results, fs)

/-- The format with a given page type and version. -/
def lookup (fs : Formats) (ioType ioVersion : UInt16) : Result NodeFormat :=
  if ioType ≠ nodeType then .error (.corruptPageFormat ioType ioVersion .notNode)
  else
    match fs.nodes.find? (·.version == ioVersion) with
    | some f => .ok f
    | none => .error (.corruptPageFormat ioType ioVersion .unknownVersion)

/-- The format of a page. -/
def ofPage (fs : Formats) (page : Bytes) : Result NodeFormat := do
  let h ← PageHeader.parse page
  if h.ioType = unformattedType then
    throw (.corruptPageFormat h.ioType h.ioVersion .neverInitialized)
  fs.lookup h.ioType h.ioVersion

/-- The format in which new nodes are written. -/
def latest (fs : Formats) : Result NodeFormat :=
  match fs.nodes.getLast? with
  | some f => .ok f
  | none => .error (.corruptPageFormat nodeType 0 .unknownVersion)

/-- The known versions, for people to read. -/
def text (fs : Formats) : String :=
  "PageIoRegistry \x7b pages_list_versions: [" ++
    ", ".intercalate (fs.nodes.map fun f => toString f.version.toNat) ++ "] \x7d"

end Formats

end PageLog
