import PageLog.Proofs.TransactionEnds

/-!
# The steps of an acknowledgment

An acknowledgment takes its time.  It decides the outcome, looks at the updates, waits for each one
it saw, takes the handle, and says what there is to say; no lock is held from one of these steps to
the next.  A call that nothing interrupts makes all its steps in a row, and then it is the direct
call.  Each step alone says very little about the scene it is made in, and what it relies on is not
undone by others.

## Main definitions

* `AckStage`, `AckEnding` — where an acknowledgment stands, and how it is over.
* `AckStage.step`, `AckStage.next` — its next step.
* `AckStage.rest` — all that it has still to do.
* `AckStage.Goes` — how a step can go.
* `AckStage.Fits` — what a call relies on.

## Main results

* `AckStage.step_rest`, `AckStage.walk_called` — **steps in a row are the direct call**.
* `AckStage.next_goes` — every way in which a step can go.
* `AckStage.Goes.fits`, `AckStage.Fits.onward` — what a call relies on is kept by its own steps, and
  by those of others.
-/

namespace PageLog

/-- How an acknowledgment is over. -/
inductive AckEnding where
  /-- Another outcome was decided before. -/
  | lost
  /-- The handle was used before. -/
  | late
  /-- The holder of the handle was told. -/
  | told (handle : AckHandle)
  /-- It failed. -/
  | failed (e : Error)
  deriving DecidableEq, Repr, Inhabited

/-- Where an acknowledgment stands. -/
inductive AckStage where
  /-- Nothing is done. -/
  | called
  /-- The outcome is the one to acknowledge. -/
  | decided
  /-- The updates `seen` were there, and `left` are those of them still to be waited for. -/
  | waits (seen left : List UpdateResult)
  /-- The updates `seen` are through, and the handle was taken. -/
  | holds (seen : List UpdateResult) (handle : AckHandle)
  /-- Nothing is left to do. -/
  | ended (ending : AckEnding)
  deriving DecidableEq, Repr, Inhabited

/-- The answer to an ending, if `delivers` is answered to the handle once it was used, `already` if
it was used before, and `otherwise` if the outcome is another one. -/
def AckEnding.answer {α : Type} (otherwise : Result α) (already : α) (delivers : AckHandle → α) :
    AckEnding → Result α
  | lost => otherwise
  | late => .ok already
  | told handle => .ok (delivers handle)
  | failed e => .error e

namespace AckStage

open Transaction

/-- The next step of an acknowledgment of the outcome `own`. -/
def step (own : TxOutcome) : AckStage → Act TxScene AckStage
  | called => do
      if (← Transaction.decide own) ≠ own then return ended .lost
      return decided
  | decided => do
      let us := (← get).tx.updates
      return waits us us
  | waits seen (u :: left) => do
      waitOn [u]
      return waits seen left
  | waits seen [] => do
      match ← takeHandle with
      | none => return ended .late
      | some handle => return holds seen handle
  | holds _ handle => do
      tell (handle.call (← get).tx.xid own)
      return ended (.told handle)
  | ended ending => return ended ending

/-- Where the acknowledgment stands after its next step, which it is over with if it fails. -/
def next (own : TxOutcome) (stage : AckStage) (s : TxScene) : AckStage × TxScene :=
  match stage.step own s with
  | .ok stage' s' => (stage', s')
  | .error e s' => (ended (.failed e), s')

/-- Where the acknowledgment stands after several steps in a row. -/
def walk (own : TxOutcome) : Nat → AckStage × TxScene → AckStage × TxScene
  | 0, here => here
  | n + 1, here => walk own n (here.1.next own here.2)

/-! ### Steps in a row -/

section Rest

variable {α : Type} (own : TxOutcome) (otherwise : Result α) (already : α)
  (delivers : AckHandle → α)

/-- What is done once the updates are through. -/
def useHandle : Act TxScene α := do
  match ← takeHandle with
  | none => return already
  | some handle =>
      tell (handle.call (← get).tx.xid own)
      return delivers handle

/-- All that an acknowledgment has still to do. -/
def rest : AckStage → Act TxScene α
  | called => acknowledge own otherwise already delivers
  | decided => do
      waitForUpdates
      useHandle own already delivers
  | waits _ left => do
      waitOn left
      useHandle own already delivers
  | holds _ handle => do
      tell (handle.call (← get).tx.xid own)
      return delivers handle
  | ended ending => Act.ofResult (ending.answer otherwise already delivers)

variable {own otherwise already delivers}

/-- A step, and then the rest, is all that there was to do. -/
theorem step_rest (stage : AckStage) :
    (stage.step own >>= rest own otherwise already delivers) =
      rest own otherwise already delivers stage := by
  cases stage with
  | called =>
    rw [step, rest, acknowledge, bind_assoc]
    refine congrArg _ (funext fun outcome => ?_)
    by_cases h : outcome = own
    · simp only [h, ne_eq, not_true_eq_false, if_false]
      rfl
    · simp only [h, ne_eq, not_false_eq_true, if_true]
      rfl
  | decided => rfl
  | waits seen left =>
    cases left with
    | nil =>
      rw [rest]
      show _ = (useHandle own already delivers : Act TxScene α)
      rw [step, bind_assoc, useHandle]
      refine congrArg _ (funext fun taken => ?_)
      cases taken with
      | none => rfl
      | some handle => rfl
    | cons u left =>
      rw [rest, waitOn_cons u left, bind_assoc, step, bind_assoc]
      rfl
  | holds seen handle =>
    simp only [step, rest, bind_assoc, pure_bind]
    rfl
  | ended ending => rfl

/-- What is left to do, and where it starts, is the same before and behind a step. -/
theorem rest_next (stage : AckStage) (s : TxScene) :
    rest own otherwise already delivers (stage.next own s).1 (stage.next own s).2 =
      rest own otherwise already delivers stage s := by
  rw [← step_rest stage, next]
  cases hstep : stage.step own s with
  | ok stage' s' => exact (Act.bind_of_ok hstep).symm
  | error e s' => exact (Act.bind_of_error hstep).symm

theorem rest_walk (n : Nat) (stage : AckStage) (s : TxScene) :
    rest own otherwise already delivers (walk own n (stage, s)).1 (walk own n (stage, s)).2 =
      rest own otherwise already delivers stage s := by
  induction n generalizing stage s with
  | zero => rfl
  | succ n ih => exact (ih _ _).trans (rest_next stage s)

end Rest

/-! ### How a step can go -/

/-- How the next step of an acknowledgment can go. -/
inductive Goes (own : TxOutcome) (s : TxScene) : AckStage → AckStage × TxScene → Prop where
  /-- Another outcome was decided before. -/
  | loses {other : TxOutcome} (hdecided : s.tx.outcome = some other) (hdiffers : other ≠ own) :
      Goes own s called (ended .lost, s)
  /-- The outcome is decided. -/
  | decides (hown : s.tx.outcome.getD own = own) : Goes own s called (decided, s.decided own)
  /-- It is seen what updates there are. -/
  | looks : Goes own s decided (waits s.tx.updates s.tx.updates, s)
  /-- An update comes through. -/
  | waited {seen left : List UpdateResult} {u : UpdateResult} {fs : UpdateFutures}
      (honward : s.futures.Onward fs) (hthrough : fs.Through [u]) :
      Goes own s (waits seen (u :: left)) (waits seen left, { s with futures := fs })
  /-- An update does not come through in time. -/
  | givesUp {seen left : List UpdateResult} {u : UpdateResult} {fs : UpdateFutures} {e : Error}
      (honward : s.futures.Onward fs) :
      Goes own s (waits seen (u :: left)) (ended (.failed e), { s with futures := fs })
  /-- The handle is taken. -/
  | takes {seen : List UpdateResult} {handle : AckHandle} (hslot : s.tx.slot = .armed handle) :
      Goes own s (waits seen []) (holds seen handle, s.used)
  /-- There is no handle to take. -/
  | finds {seen : List UpdateResult} {ending : AckEnding} :
      Goes own s (waits seen []) (ended ending, s)
  /-- The outcome is said. -/
  | speaks {seen : List UpdateResult} {handle : AckHandle} {ending : AckEnding} :
      Goes own s (holds seen handle) (ended ending, s.saying (handle.call s.tx.xid own))
  /-- Nothing is left to do. -/
  | rests {ending : AckEnding} : Goes own s (ended ending) (ended ending, s)

theorem next_of_ok {own : TxOutcome} {stage stage' : AckStage} {s s' : TxScene}
    (h : stage.step own s = .ok stage' s') : stage.next own s = (stage', s') := by
  rw [next, h]

theorem next_of_error {own : TxOutcome} {stage : AckStage} {s s' : TxScene} {e : Error}
    (h : stage.step own s = .error e s') : stage.next own s = (ended (.failed e), s') := by
  rw [next, h]

/-- Every way in which a step can go. -/
theorem next_goes (own : TxOutcome) (stage : AckStage) (s : TxScene) :
    Goes own s stage (stage.next own s) := by
  cases stage with
  | called =>
    have hdecide := Transaction.decide_eq own s
    by_cases h : s.tx.outcome.getD own = own
    · have hstep : called.step own s = .ok decided (s.decided own) := by
        rw [step, Act.bind_of_ok hdecide, if_neg (not_not_intro h)]
        rfl
      rw [next_of_ok hstep]
      exact .decides h
    · -- without an outcome the own one would have been decided
      cases houtcome : s.tx.outcome with
      | none =>
        rw [houtcome] at h
        exact absurd rfl h
      | some other =>
        rw [TxScene.decided_of_some own houtcome] at hdecide
        have hstep : called.step own s = .ok (ended .lost) s := by
          rw [step, Act.bind_of_ok hdecide, if_pos h]
          rfl
        rw [houtcome] at h
        rw [next_of_ok hstep]
        exact .loses houtcome h
  | decided => exact .looks
  | waits seen left =>
    cases left with
    | nil =>
      cases hslot : s.tx.slot with
      | unset =>
        have hstep : (waits seen []).step own s = .error (.contractViolation .noHandle) s :=
          Act.bind_of_error (takeHandle_unset hslot)
        rw [next_of_error hstep]
        exact .finds
      | delivered =>
        have hstep : (waits seen []).step own s = .ok (ended .late) s :=
          Act.bind_of_ok (takeHandle_delivered hslot)
        rw [next_of_ok hstep]
        exact .finds
      | armed handle =>
        have hstep : (waits seen []).step own s = .ok (holds seen handle) s.used :=
          Act.bind_of_ok (takeHandle_armed hslot)
        rw [next_of_ok hstep]
        exact .takes hslot
    | cons u left =>
      cases hwait : waitOn [u] s with
      | ok _ s' =>
        obtain ⟨fs, rfl, honward, hthrough⟩ := waitOn_ok hwait
        rw [next_of_ok (Act.bind_of_ok hwait)]
        exact .waited honward hthrough
      | error e s' =>
        obtain ⟨-, -, fs, rfl, honward, -⟩ := waitOn_error hwait
        rw [next_of_error (Act.bind_of_error hwait)]
        exact .givesUp honward
  | holds seen handle =>
    have hget : (holds seen handle).step own s =
      (tell (handle.call s.tx.xid own) >>= fun _ => pure (ended (.told handle))) s := rfl
    cases hrefusal : s.coordinator.refusal (handle.call s.tx.xid own) with
    | none =>
      rw [next_of_ok (hget.trans (Act.bind_of_ok (tell_of_accepted hrefusal)))]
      exact .speaks
    | some e =>
      rw [next_of_error (hget.trans (Act.bind_of_error (tell_of_refused hrefusal)))]
      exact .speaks
  | ended ending => exact .rests

/-! ### Steps in a row come to an end -/

/-- The steps from here on come to an end. -/
def Ends (own : TxOutcome) (here : AckStage × TxScene) : Prop :=
  ∃ n ending s', walk own n here = (ended ending, s')

theorem ends_of_goes {own : TxOutcome} {stage : AckStage} {s : TxScene}
    (h : ∀ here, Goes own s stage here → Ends own here) : Ends own (stage, s) := by
  obtain ⟨n, ending, s', hwalk⟩ := h _ (next_goes own stage s)
  exact ⟨n + 1, ending, s', hwalk⟩

theorem ends_ended (own : TxOutcome) (ending : AckEnding) (s : TxScene) :
    Ends own (ended ending, s) := ⟨0, ending, s, rfl⟩

theorem ends_holds (own : TxOutcome) (seen : List UpdateResult) (handle : AckHandle)
    (s : TxScene) : Ends own (holds seen handle, s) := by
  refine ends_of_goes fun here hgoes => ?_
  cases hgoes with
  | speaks => exact ends_ended own _ _

/-- There are no more steps of waiting than updates. -/
theorem ends_waits (own : TxOutcome) (seen left : List UpdateResult) (s : TxScene) :
    Ends own (waits seen left, s) := by
  induction left generalizing s with
  | nil =>
    refine ends_of_goes fun here hgoes => ?_
    cases hgoes with
    | takes hslot => exact ends_holds own _ _ _
    | finds => exact ends_ended own _ _
  | cons u left ih =>
    refine ends_of_goes fun here hgoes => ?_
    cases hgoes with
    | waited honward hthrough => exact ih _
    | givesUp honward => exact ends_ended own _ _

theorem ends_decided (own : TxOutcome) (s : TxScene) : Ends own (decided, s) := by
  refine ends_of_goes fun here hgoes => ?_
  cases hgoes with
  | looks => exact ends_waits own _ _ _

theorem ends_called (own : TxOutcome) (s : TxScene) : Ends own (called, s) := by
  refine ends_of_goes fun here hgoes => ?_
  cases hgoes with
  | loses hdecided hdiffers => exact ends_ended own _ _
  | decides hown => exact ends_decided own _

/-- **Steps in a row are the direct call.**  They come to an end, and what the call answers and
leaves is what that ending says. -/
theorem walk_called (own : TxOutcome) (s : TxScene) :
    ∃ n ending s', walk own n (called, s) = (ended ending, s') ∧
      ∀ {α : Type} (otherwise : Result α) (already : α) (delivers : AckHandle → α),
        acknowledge own otherwise already delivers s =
          Act.ofResult (ending.answer otherwise already delivers) s' := by
  obtain ⟨n, ending, s', hwalk⟩ := ends_called own s
  refine ⟨n, ending, s', hwalk, fun otherwise already delivers => ?_⟩
  -- what is left to do at the end is what was left at the beginning
  have hrest : rest own otherwise already delivers (walk own n (called, s)).1
      (walk own n (called, s)).2 = acknowledge own otherwise already delivers s :=
    rest_walk n called s
  rw [hwalk] at hrest
  exact hrest.symm

/-! ### What a call relies on -/

/-- What an acknowledgment relies on when it goes on: the outcome is the one to acknowledge, and
updates that it has waited for are through. -/
def Fits (own : TxOutcome) (s : TxScene) : AckStage → Prop
  | called => True
  | decided => s.tx.outcome = some own
  | waits seen left => s.tx.outcome = some own ∧ seen <+: s.tx.updates ∧
      ∃ passed, seen = passed ++ left ∧ s.futures.Through passed
  | holds seen _ => s.tx.outcome = some own ∧ seen <+: s.tx.updates ∧ s.futures.Through seen
  | ended _ => True

/-- What a call relies on stays, whatever others do. -/
theorem Fits.onward {own : TxOutcome} {s s' : TxScene} {stage : AckStage}
    (h : stage.Fits own s) (honward : s.Onward s') : stage.Fits own s' := by
  cases stage with
  | called => trivial
  | decided => exact honward.outcome own h
  | waits seen left =>
    obtain ⟨hown, hseen, passed, hpassed, hthrough⟩ := h
    exact ⟨honward.outcome own hown, hseen.trans honward.updates, passed, hpassed,
      hthrough.onward honward.futures⟩
  | holds seen handle =>
    obtain ⟨hown, hseen, hthrough⟩ := h
    exact ⟨honward.outcome own hown, hseen.trans honward.updates, hthrough.onward honward.futures⟩
  | ended ending => trivial

theorem Goes.onward {own : TxOutcome} {s : TxScene} {stage : AckStage} {here : AckStage × TxScene}
    (h : Goes own s stage here) : s.Onward here.2 := by
  cases h with
  | decides hown => exact (s.quiet_decided own).onward
  | waited honward hthrough => exact (TxScene.Quiet.of_futures s honward).onward
  | givesUp honward => exact (TxScene.Quiet.of_futures s honward).onward
  | takes hslot => exact ⟨fun _ hdecided => hdecided, List.prefix_rfl, .refl s.futures⟩
  | speaks => exact ⟨fun _ hdecided => hdecided, List.prefix_rfl, .refl s.futures⟩
  | loses hdecided hdiffers => exact (TxScene.Quiet.refl s).onward
  | looks => exact (TxScene.Quiet.refl s).onward
  | finds => exact (TxScene.Quiet.refl s).onward
  | rests => exact (TxScene.Quiet.refl s).onward

/-- A step leaves the call with what it relies on. -/
theorem Goes.fits {own : TxOutcome} {s : TxScene} {stage : AckStage} {here : AckStage × TxScene}
    (h : Goes own s stage here) (hfits : stage.Fits own s) : here.1.Fits own here.2 := by
  cases h with
  | decides hown => exact congrArg some hown
  | looks => exact ⟨hfits, List.prefix_rfl, [], rfl, UpdateFutures.through_nil _⟩
  | @waited seen left u fs honward hthrough =>
    -- one more update is through, and the earlier ones still are
    obtain ⟨hown, hseen, passed, hpassed, hearlier⟩ := hfits
    refine ⟨hown, hseen, passed ++ [u], ?_, ?_⟩
    · rw [hpassed, List.append_assoc, List.singleton_append]
    · exact UpdateFutures.through_append.2 ⟨hearlier.onward honward, hthrough⟩
  | takes hslot =>
    obtain ⟨hown, hseen, passed, hpassed, hthrough⟩ := hfits
    rw [List.append_nil] at hpassed
    exact ⟨hown, hseen, hpassed ▸ hthrough⟩
  | loses hdecided hdiffers => trivial
  | givesUp honward => trivial
  | finds => trivial
  | speaks => trivial
  | rests => trivial

end AckStage

end PageLog
