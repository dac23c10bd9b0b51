import PageLog.Completion

/-!
# Handles on completion cells

Several handles may refer to one cell: what one of them does, all of them see.

## Main definitions

* `Handles` — cells, and the handles on them.
* `Handles.add`, `Handles.clone`, `Handles.on` — a handle on a new cell, another handle on the
  same cell, a step through a handle.
-/

namespace PageLog

/-- Cells, and the handles on them. -/
structure Handles (α : Type) where
  /-- The cells. -/
  cells : Array (Completion α)
  /-- For each handle, the number of its cell. -/
  handles : List (String × Nat)

namespace Handles

variable {α : Type}

/-- No cells. -/
def empty : Handles α := ⟨#[], []⟩

/-- A handle on a new cell. -/
def add (handle : String) (cell : Completion α) (h : Handles α) : Handles α :=
  ⟨h.cells.push cell, (handle, h.cells.size) :: h.handles⟩

/-- The number of the cell of a handle. -/
def cell (h : Handles α) (handle : String) : Nat := (h.handles.lookup handle).getD h.cells.size

/-- Another handle on the cell of a handle. -/
def clone (handle source : String) (h : Handles α) : Handles α :=
  { h with handles := (handle, h.cell source) :: h.handles }

/-- A step on the cell of a handle. -/
def on {β : Type} (handle : String) (act : Act (Completion α) β) : Act (Handles α) β :=
  Act.on (fun h => h.cells.getD (h.cell handle) .new)
    (fun h c => { h with cells := h.cells.setIfInBounds (h.cell handle) c }) act

end Handles

end PageLog
