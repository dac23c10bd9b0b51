import PageLog.Bytes.Field

/-!
# The header that all pages share

A formatted page begins with 16 bytes that name its type, the version of its format, and the page
itself, so that the bytes of a page tell what can read them.

## Main definitions

* `PageHeader` — type, version and number of a page.
* `PageHeader.parse`, `PageHeader.write` — the header of a page's bytes.
-/

namespace PageLog

/-- The type of a page that was never formatted. -/
def unformattedType : UInt16 := 0

/-- The type of the pages that carry a free list. -/
def nodeType : UInt16 := 12

/-- No page is smaller than this. -/
def minPageSize : Nat := 64

/-- What all pages begin with. -/
structure PageHeader where
  /-- What the page is used for. -/
  ioType : UInt16
  /-- The version of its format. -/
  ioVersion : UInt16
  /-- The page itself. -/
  pageId : PageId
  deriving DecidableEq, Repr, Inhabited

namespace PageHeader

/-- The length of the header. -/
def size : Nat := 16

/-- The header of a page. -/
def parse (page : Bytes) : Result PageHeader :=
  match Bytes.window page 0 size with
  | none => .error (.corruption .pageTooShort)
  | some header => do
      let ioType ← Field.readU16 header 0
      let ioVersion ← Field.readU16 header 2
      let pageId ← Field.readU64 header 8
      return ⟨ioType, ioVersion, pageId⟩

/-- Puts the header on a page.  The bytes it does not use become zero. -/
def write (h : PageHeader) : Act Bytes Unit := do
  Field.writeU16 0 h.ioType
  Field.writeU16 2 h.ioVersion
  Field.writeU32 4 0
  Field.writeU64 8 h.pageId

/-- The header as it is written in reports. -/
def text (h : PageHeader) : String :=
  s!"type={h.ioType.toNat} version={h.ioVersion.toNat} page={PageId.text h.pageId}"

end PageHeader

end PageLog
