import PageLog.Error
import PageLog.File.Content

/-!
# Transfers that stop short

An operating system may move fewer bytes than it was asked to, as long as it moves at least one;
only at or past the end of a file does a read move none.  A whole read or write is therefore a
loop over transfers.  How far each transfer gets is a schedule, so that what the loops do can be
stated for every schedule.

## Main definitions

* `Pace` — how many bytes each transfer moves.
* `Transfer.readAll`, `Transfer.writeAll` — whole reads and writes, transfer by transfer.
-/

namespace PageLog

/-- How far transfers get: for the `n`-th transfer of a file and a count of bytes wanted, a count
of bytes to move.  Whatever is given here, a transfer moves at least one and at most as many as
wanted. -/
abbrev Pace := Nat → Nat → Nat

/-- Every transfer moves all that is wanted. -/
def Pace.whole : Pace := fun _ wanted => wanted

/-- How many bytes the `n`-th transfer moves when `wanted` are asked for and can be moved. -/
def Pace.moved (pace : Pace) (n wanted : Nat) : Nat := min wanted (max 1 (pace n wanted))

theorem Pace.moved_pos (pace : Pace) {n wanted : Nat} (h : 0 < wanted) :
    0 < pace.moved n wanted := by
  simp only [Pace.moved]
  omega

theorem Pace.moved_le (pace : Pace) (n wanted : Nat) : pace.moved n wanted ≤ wanted :=
  Nat.min_le_left ..

namespace Transfer

/-- Reads `len` bytes at `off`, where `n` transfers were made before.  The result comes with the
count of transfers made after it. -/
def readAll (pace : Pace) (content : Content) (n off len : Nat) : Except IoFault Bytes × Nat :=
  if _ : len = 0 then (.ok [], n)
  else
    let chunk := content.slice off (pace.moved n len)
    -- A transfer moves nothing only at or past the end of the file.
    if h : chunk = [] then (.error .pastEnd, n + 1)
    else
      match readAll pace content (n + 1) (off + chunk.length) (len - chunk.length) with
      | (.ok rest, n') => (.ok (chunk ++ rest), n')
      | (.error fault, n') => (.error fault, n')
termination_by len
decreasing_by
  have hchunk : 0 < (content.slice off (pace.moved n len)).length :=
    List.length_pos_iff.2 h
  omega

/-- Writes `data` at `off`, where `n` transfers were made before. -/
def writeAll (pace : Pace) (content : Content) (n off : Nat) (data : Bytes) : Content × Nat :=
  if _ : data = [] then (content, n)
  else
    let k := pace.moved n data.length
    writeAll pace (content.put off (data.take k)) (n + 1) (off + k) (data.drop k)
termination_by data.length
decreasing_by
  have hdata := List.length_pos_iff.2 ‹¬data = []›
  have hmoved := pace.moved_pos hdata (n := n)
  simp only [List.length_drop]
  omega

end Transfer

end PageLog
