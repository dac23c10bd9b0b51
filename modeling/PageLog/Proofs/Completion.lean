import PageLog.Completion
import PageLog.Proofs.Act

/-!
# Waiting for an outcome

A bounded wait either goes on until the cell is finished or is given up.  In the first case it finds
the outcome or outlasts its arrival; in the second only the time that passed shows.

## Main results

* `Completion.waitFinishedFor_of_done`, `Completion.waitFinishedFor_goes` — a bounded wait on a
  finished and on an unfinished cell.
* `Completion.waitFinishedFor_ok`, `Completion.waitFinishedFor_error` — what a bounded wait leaves.
* `Completion.take_of_some`, `Completion.take_of_none` — what is taken.
-/

namespace PageLog

namespace Completion

variable {α : Type} {c c' : Completion α} {r : Result α}

/-- The cell after a while in which nothing arrived. -/
def nearer (bound : Duration) (c : Completion α) : Completion α :=
  { c with underway := c.underway.map fun (delay, r) => (⟨delay.nanos - bound.nanos⟩, r) }

theorem nearer_of_none (bound : Duration) (h : c.underway = none) : c.nearer bound = c := by
  rw [nearer, h]
  cases c
  cases h
  rfl

/-- An outcome that is on its way is not there yet. -/
theorem finishLater_keeps (delay : Duration) (r : Result α) (c : Completion α) :
    (c.finishLater delay r).finished = c.finished ∧
      (c.finishLater delay r).outcome = c.outcome := by
  unfold finishLater
  split
  · split <;> exact ⟨rfl, rfl⟩
  · exact ⟨rfl, rfl⟩

theorem isDone_finish (r : Result α) (c : Completion α) : (c.finish r).2.isDone = true := by
  rw [finish]
  split
  · assumption
  · rfl

theorem arrive_of_underway {delay : Duration} (hopen : c.finished = false)
    (hunderway : c.underway = some (delay, r)) : c.arrive = ⟨true, some r, none⟩ := by
  unfold arrive
  rw [hunderway]
  exact congrArg Prod.snd (if_neg (by rw [hopen]; exact Bool.false_ne_true))

theorem finished_arrive {delay : Duration} (hunderway : c.underway = some (delay, r)) :
    c.arrive.isDone = true := by
  unfold arrive
  rw [hunderway]
  exact isDone_finish r _

/-- What arrived is there after any time. -/
theorem isDone_pass (time : Duration) (h : c.isDone = true) : (c.pass time).isDone = true := by
  unfold pass
  cases hunderway : c.underway with
  | none => exact h
  | some p =>
    obtain ⟨delay, r⟩ := p
    by_cases hin : delay.nanos ≤ time.nanos
    · simp only [if_pos hin]
      exact finished_arrive hunderway
    · simp only [if_neg hin]
      exact h

/-! ### Bounded waits -/

section Bounded

variable {bound : Duration} {operation : String}

theorem waitFinishedFor_of_done (bound : Duration) (operation : String) (hdone : c.isDone = true) :
    waitFinishedFor bound operation c = .ok () c :=
  if_pos hdone

/-- A wait on an unfinished cell outlasts the arrival of the outcome or is given up. -/
theorem waitFinishedFor_goes (bound : Duration) (operation : String) (hopen : c.isDone = false) :
    (∃ delay r, c.underway = some (delay, r) ∧
      waitFinishedFor bound operation c = .ok () c.arrive) ∨
    waitFinishedFor bound operation c = .error (.timeout operation bound) (c.nearer bound) := by
  have hclosed : ¬c.finished = true := by
    intro hdone
    cases hopen.symm.trans hdone
  unfold waitFinishedFor
  rw [if_neg hclosed]
  cases hunderway : c.underway with
  | none =>
    right
    rw [nearer_of_none bound hunderway]
  | some p =>
    obtain ⟨delay, r⟩ := p
    by_cases hin : delay.nanos ≤ bound.nanos
    · exact .inl ⟨delay, r, rfl, if_pos hin⟩
    · right
      simp only [if_neg hin, nearer, hunderway, Option.map_some]

/-- A wait that is not given up ends with a finished cell. -/
theorem waitFinishedFor_ok (h : waitFinishedFor bound operation c = .ok () c') :
    c'.isDone = true := by
  cases hdone : c.isDone with
  | true =>
    rw [waitFinishedFor_of_done bound operation hdone] at h
    cases h
    exact hdone
  | false =>
    rcases waitFinishedFor_goes bound operation hdone with ⟨delay, r, hunderway, hwait⟩ | hwait
    · rw [hwait] at h
      cases h
      exact finished_arrive hunderway
    · rw [hwait] at h
      cases h

/-- A wait that is given up leaves a cell that is not finished. -/
theorem waitFinishedFor_error {e : Error} (h : waitFinishedFor bound operation c = .error e c') :
    e = .timeout operation bound ∧ c'.isDone = false := by
  cases hdone : c.isDone with
  | true =>
    rw [waitFinishedFor_of_done bound operation hdone] at h
    cases h
  | false =>
    rcases waitFinishedFor_goes bound operation hdone with ⟨delay, r, hunderway, hwait⟩ | hwait
    · rw [hwait] at h
      cases h
    · rw [hwait] at h
      cases h
      exact ⟨rfl, hdone⟩

theorem waitFor_of_ok (h : waitFinishedFor bound operation c = .ok () c') :
    waitFor bound operation c = take c' :=
  Act.bind_of_ok h

theorem waitFor_of_error {e : Error} (h : waitFinishedFor bound operation c = .error e c') :
    waitFor bound operation c = .error e c' :=
  Act.bind_of_error h

end Bounded

/-! ### Unbounded waits and taking -/

theorem wait_of_done (hdone : c.finished = true) : wait c = take c := if_pos hdone

theorem wait_of_open (hopen : c.finished = false) : wait c = take c.arrive :=
  if_neg (by rw [hopen]; exact Bool.false_ne_true)

theorem take_of_none (h : c.outcome = none) : take c = .error .notFound c := by rw [take, h]

theorem take_of_some (h : c.outcome = some r) :
    take.answer c = r ∧ take.left c = { c with outcome := none } := by
  cases r with
  | ok a =>
    have htake : take c = .ok a { c with outcome := none } := by rw [take, h]
    exact ⟨Act.answer_of_ok htake, Act.left_of_ok htake⟩
  | error e =>
    have htake : take c = .error e { c with outcome := none } := by rw [take, h]
    exact ⟨Act.answer_of_error htake, Act.left_of_error htake⟩

/-- Taking does not undo the finish. -/
theorem finished_left_take (c : Completion α) : (take.left c).finished = c.finished := by
  cases houtcome : c.outcome with
  | some r => rw [(take_of_some houtcome).2]
  | none => rw [Act.left_of_error (take_of_none houtcome)]

end Completion

end PageLog
