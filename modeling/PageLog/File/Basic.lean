import PageLog.File.Transfer

/-!
# Files

A file is a byte string with positional reads and writes.  It is kept either in memory or by the
operating system; the second moves bytes by transfers that may stop short.  The two agree on
everything but empty requests: in memory an empty read must lie inside the file and an empty write
extends it, while the operating system is not even asked.

## Main definitions

* `File`, `File.bytes` — content and medium, and the content as a list.
* `File.read`, `File.write`, `File.writeParts`, `File.truncate` — the operations.
-/

namespace PageLog

/-- What keeps a file. -/
inductive Medium where
  /-- The file is kept in memory. -/
  | memory
  /-- The operating system keeps the file and moves bytes at a certain pace; `moves` transfers were
  made so far. -/
  | system (pace : Pace) (moves : Nat)

/-- A file. -/
structure File where
  /-- The bytes of the file. -/
  content : Content
  /-- What keeps it. -/
  medium : Medium

namespace File

/-- An empty file in memory. -/
def inMemory : File := ⟨.ofBytes [], .memory⟩

/-- An empty file of the operating system. -/
def onSystem (pace : Pace) : File := ⟨.ofBytes [], .system pace 0⟩

/-- The bytes of the file. -/
def bytes (f : File) : Bytes := f.content.bytes

/-- The length of the file. -/
def len (f : File) : Nat := f.content.size

/-- `len` bytes at offset `off`. -/
def read (f : File) (off len : Nat) : Except IoFault Bytes × File :=
  match f.medium with
  | .memory =>
      match f.content.window off len with
      | some bs => (.ok bs, f)
      | none => (.error .pastEnd, f)
  | .system pace moves =>
      let (result, moves') := Transfer.readAll pace f.content moves off len
      (result, { f with medium := .system pace moves' })

/-- The file with `data` at offset `off`. -/
def write (f : File) (off : Nat) (data : Bytes) : File :=
  match f.medium with
  | .memory => { f with content := f.content.put off data }
  | .system pace moves =>
      let (content, moves') := Transfer.writeAll pace f.content moves off data
      { content, medium := .system pace moves' }

/-- The file with several byte strings one after the other from offset `off` on, written one by
one.  Empty ones are passed over. -/
def writeParts (f : File) (off : Nat) : List Bytes → File
  | [] => f
  | part :: parts =>
      if part = [] then f.writeParts off parts
      else (f.write off part).writeParts (off + part.length) parts

/-- The file cut, or filled up with zeros, to `n` bytes. -/
def truncate (f : File) (n : Nat) : File := { f with content := f.content.resize n }

/-- The file with the byte at `off` inverted, if there is one. -/
def flip (f : File) (off : Nat) : File := { f with content := f.content.flip off }

end File

end PageLog
