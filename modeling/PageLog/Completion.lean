import PageLog.Error

/-!
# Outcomes that arrive later

A completion cell is finished once, by whoever comes first, and its outcome is taken once, by
whoever comes first after that.  A wait may be bounded: if the outcome does not arrive in time the
wait is given up, and the cell is as it was.  One may also wait just for the outcome to be there,
without taking it.

While a finish is under way elsewhere, the cell knows how long it will still take, so that a wait
either outlasts it or is given up before.

## Main definitions

* `Completion` — a cell.
* `Completion.finish`, `Completion.isDone` — finishing it.
* `Completion.wait`, `Completion.waitFor`, `Completion.waitFinishedFor` — waiting for it.
-/

namespace PageLog

/-- A cell for an outcome that arrives later. -/
structure Completion (α : Type) where
  /-- Whether the outcome arrived. -/
  finished : Bool
  /-- The outcome, from its arrival until it is taken. -/
  outcome : Option (Result α)
  /-- A finish that is under way, and how long it will take. -/
  underway : Option (Duration × Result α)
  deriving Inhabited

namespace Completion

variable {α : Type}

/-- Nothing arrived. -/
def new : Completion α := ⟨false, none, none⟩

/-- Brings the outcome, unless one is there.  Tells whether this was the one. -/
def finish (r : Result α) (c : Completion α) : Bool × Completion α :=
  if c.finished then (false, c) else (true, { c with finished := true, outcome := some r })

/-- A cell that was finished at once. -/
def ofOutcome (r : Result α) : Completion α := (new.finish r).2

/-- Lets an outcome arrive after a while.  Of several outcomes under way the earliest counts. -/
def finishLater (delay : Duration) (r : Result α) (c : Completion α) : Completion α :=
  match c.underway with
  | some (earlier, _) =>
      if delay.nanos < earlier.nanos then { c with underway := some (delay, r) } else c
  | none => { c with underway := some (delay, r) }

/-- Whether an outcome arrived. -/
def isDone (c : Completion α) : Bool := c.finished

/-- What is under way arrives. -/
def arrive (c : Completion α) : Completion α :=
  match c.underway with
  | some (_, r) => (finish r { c with underway := none }).2
  | none => c

/-- Takes the outcome of a finished cell, unless it was taken before. -/
def take : Act (Completion α) α := fun c =>
  match c.outcome with
  | some (.ok a) => .ok a { c with outcome := none }
  | some (.error e) => .error e { c with outcome := none }
  | none => .error .notFound c

/-- Time passes: what is under way arrives, or comes nearer. -/
def pass (time : Duration) (c : Completion α) : Completion α :=
  match c.underway with
  | none => c
  | some (delay, r) =>
      if delay.nanos ≤ time.nanos then c.arrive
      else { c with underway := some (⟨delay.nanos - time.nanos⟩, r) }

/-- How long a wait on an unfinished cell takes. -/
def waitTime (bound : Duration) (c : Completion α) : Duration :=
  match c.underway with
  | none => bound
  | some (delay, _) => ⟨min delay.nanos bound.nanos⟩

/-- Waits until the cell is finished, for at most `bound`.  The end of that time is a moment that
the clock can count: a wait with a longer bound breaks off before it looks at the cell, even at a
finished one, and returns nothing. -/
def waitFinishedFor (bound : Duration) (operation : String) : Act (Completion α) Unit := fun c =>
  if c.finished then .ok () c
  else
    match c.underway with
    | none => .error (.timeout operation bound) c
    | some (delay, r) =>
        if delay.nanos ≤ bound.nanos then .ok () c.arrive
        else
          .error (.timeout operation bound)
            { c with underway := some (⟨delay.nanos - bound.nanos⟩, r) }

/-- Waits for the outcome and takes it, for at most `bound`. -/
def waitFor (bound : Duration) (operation : String) : Act (Completion α) α := do
  waitFinishedFor bound operation
  take

/-- Waits for the outcome, however long it takes, and takes it.  A cell that no one is about to
finish has nothing to give. -/
def wait : Act (Completion α) α := fun c =>
  if c.finished then take c else take c.arrive

end Completion

end PageLog
