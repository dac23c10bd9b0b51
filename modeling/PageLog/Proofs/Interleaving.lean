import PageLog.Proofs.Acknowledgment
import PageLog.Proofs.AckSteps

/-!
# Acknowledgments at the same time

Any number of acknowledgments may be under way for one transaction, and a listener that heard of the
end leaves its own to a task, which is one more of them.  Their steps come in any order, with
anything else in between.  It is the handle that makes them exclude each other: one of them takes
it, and says what there is to say in a later step, and the others find that it was taken.

What a call waits for is what it saw when it looked at the updates.  An update that is recorded
while it waits is none of those, and may still be under way when the end is acknowledged.

## Main definitions

* `AckTask`, `TxWorld` — calls under way, and a transaction with those that are at work on it.
* `TxMove` — what can happen next.
* `TxWorld.AcknowledgedBy` — where in a run the acknowledgment is made, and what is so then.

## Main results

* `TxWorld.moves_after` — **a move says nothing, takes the handle, or acknowledges**.
* `TxWorld.afterAll_fits` — calls under way may rely on what they saw.
* `acknowledged_at_most_once` — **a run acknowledges once at most, and rightly but for updates that
  came too late to be seen**.
-/

namespace PageLog

/-- An acknowledgment under way. -/
structure AckTask where
  /-- The outcome to acknowledge. -/
  own : TxOutcome
  /-- Where it stands. -/
  stage : AckStage
  deriving DecidableEq, Repr, Inhabited

/-- A handle that was taken and is still to be used. -/
structure AckHold where
  /-- The outcome to acknowledge. -/
  own : TxOutcome
  /-- The updates that were waited for. -/
  seen : List UpdateResult
  /-- The handle. -/
  handle : AckHandle
  deriving DecidableEq, Repr, Inhabited

/-- A transaction, and the acknowledgments that are under way for it. -/
structure TxWorld where
  /-- The transaction and all that its end involves. -/
  scene : TxScene
  /-- The acknowledgments, in the order in which they were begun. -/
  tasks : List AckTask

/-- What can happen next. -/
inductive TxMove where
  /-- Something happens that is over before anything else does. -/
  | happens (op : TxOp)
  /-- An acknowledgment of an outcome is called for. -/
  | begins (own : TxOutcome)
  /-- A listener hears how the transaction ended. -/
  | hears (bound : Option Duration) (signal : FinishSignal)
  /-- The acknowledgment with the number `k` makes its next step. -/
  | goes (k : Nat)
  deriving Repr, Inhabited

namespace TxMove

/-- The handle that a move brings. -/
def handle? : TxMove → Option AckHandle
  | happens op => op.handle?
  | _ => none

/-- The update that a move records. -/
def update? : TxMove → Option UpdateResult
  | happens op => op.update?
  | _ => none

/-- The first handle that moves bring. -/
def installed (moves : List TxMove) : Option AckHandle := moves.findSome? handle?

/-- The updates that moves record, in order. -/
def recorded (moves : List TxMove) : List UpdateResult := moves.filterMap update?

theorem installed_snoc (moves : List TxMove) (m : TxMove) :
    installed (moves ++ [m]) = (installed moves).or m.handle? := by
  simp [installed, List.findSome?_append]

theorem recorded_snoc (moves : List TxMove) (m : TxMove) :
    recorded (moves ++ [m]) = recorded moves ++ m.update?.toList := by
  rw [recorded, List.filterMap_append, recorded]
  cases h : m.update? with
  | none => rw [List.filterMap_cons_none h, List.filterMap_nil, Option.toList_none]
  | some u => rw [List.filterMap_cons_some h, List.filterMap_nil, Option.toList_some]

end TxMove

/-- What a task holds that has taken the handle. -/
def AckTask.hold? (task : AckTask) : Option AckHold :=
  match task.stage with
  | .holds seen handle => some ⟨task.own, seen, handle⟩
  | _ => none

namespace TxWorld

/-- A task makes its next step. -/
def go (w : TxWorld) (k : Nat) : TxWorld :=
  match w.tasks[k]? with
  | none => w
  | some task =>
      let (stage, scene) := task.stage.next task.own w.scene
      ⟨scene, w.tasks.set k { task with stage }⟩

/-- The world after a move. -/
def after (w : TxWorld) : TxMove → TxWorld
  | .happens op => { w with scene := w.scene.after op }
  | .begins own => { w with tasks := w.tasks ++ [⟨own, .called⟩] }
  | .hears bound signal =>
      match Transaction.onSignal bound signal w.scene with
      | .ok true scene => ⟨scene, w.tasks ++ [⟨.rolledBack, .called⟩]⟩
      | .ok false scene => { w with scene }
      | .error _ scene => { w with scene }
  | .goes k => w.go k

/-- The world after moves. -/
def afterAll (w : TxWorld) (moves : List TxMove) : TxWorld := moves.foldl after w

@[simp] theorem afterAll_snoc (w : TxWorld) (moves : List TxMove) (m : TxMove) :
    w.afterAll (moves ++ [m]) = (w.afterAll moves).after m := by
  simp [afterAll]

/-- What the task with the number `k` holds. -/
def hold? (w : TxWorld) (k : Nat) : Option AckHold := w.tasks[k]?.bind AckTask.hold?

/-! ### A move -/

section Move

variable {w : TxWorld} {k j : Nat} {task : AckTask}

theorem hold?_of_get (hk : w.tasks[k]? = some task) : w.hold? k = task.hold? := by
  rw [hold?, hk, Option.bind_some]

/-- A task that has just been begun holds nothing. -/
theorem hold?_begun (own : TxOutcome) (scene : TxScene) (j : Nat) :
    (⟨scene, w.tasks ++ [⟨own, .called⟩]⟩ : TxWorld).hold? j = w.hold? j := by
  rw [hold?, hold?, List.getElem?_append]
  split
  · rfl
  · next hj =>
    rw [List.getElem?_eq_none (Nat.le_of_not_lt hj)]
    cases h : ([⟨own, .called⟩] : List AckTask)[j - w.tasks.length]? with
    | none => rfl
    | some task =>
      obtain rfl := List.mem_singleton.1 (List.mem_of_getElem? h)
      rfl

/-- A step of a task changes nothing in what the others hold. -/
theorem hold?_set (hk : w.tasks[k]? = some task) (task' : AckTask) (scene : TxScene) (j : Nat) :
    (⟨scene, w.tasks.set k task'⟩ : TxWorld).hold? j =
      if j = k then task'.hold? else w.hold? j := by
  obtain ⟨hlt, -⟩ := List.getElem?_eq_some_iff.1 hk
  rw [hold?, List.getElem?_set]
  by_cases hj : j = k
  · subst hj
    rw [if_pos rfl, if_pos rfl, if_pos hlt]
    rfl
  · rw [if_neg (Ne.symm hj), if_neg hj]
    rfl

/-- What a move can do. -/
inductive Moves (w : TxWorld) (m : TxMove) (w' : TxWorld) : Prop where
  /-- Nothing is said, and no handle is taken. -/
  | quiet (hquiet : w.scene.Quiet m.handle? m.update? w'.scene)
      (hholds : ∀ j, w'.hold? j = w.hold? j)
  /-- A task takes the handle. -/
  | takes {k : Nat} {hold : AckHold} (hm : m = .goes k)
      (hslot : w.scene.tx.slot = .armed hold.handle) (hscene : w'.scene = w.scene.used)
      (hholds : ∀ j, w'.hold? j = if j = k then some hold else w.hold? j)
  /-- A task uses the handle that it holds. -/
  | speaks {k : Nat} {hold : AckHold} (hm : m = .goes k) (hheld : w.hold? k = some hold)
      (hscene : w'.scene = w.scene.saying (hold.handle.call w.scene.tx.xid hold.own))
      (hholds : ∀ j, w'.hold? j = if j = k then none else w.hold? j)
  /-- The outcome is acknowledged in one go. -/
  | acknowledges {op : TxOp} {handle : AckHandle} {outcome : TxOutcome} {now : TxScene}
      (hm : m = .happens op) (hhandle : op.handle? = none) (hupdate : op.update? = none)
      (hacks : w.scene.Acknowledges handle outcome now w'.scene)
      (hholds : ∀ j, w'.hold? j = w.hold? j)

/-- A step that leaves a task without the handle, and did not use it, is quiet. -/
theorem moves_goes_of_quiet {stage : AckStage} {scene : TxScene} (hk : w.tasks[k]? = some task)
    (hquiet : w.scene.Quiet none none scene) (hbefore : task.hold? = none)
    (hbehind : AckTask.hold? ⟨task.own, stage⟩ = none) :
    w.Moves (.goes k) ⟨scene, w.tasks.set k ⟨task.own, stage⟩⟩ := by
  refine .quiet hquiet fun j => ?_
  rw [hold?_set hk]
  split
  · next hj => rw [hj, hold?_of_get hk, hbefore, hbehind]
  · rfl

/-- A step of a task is quiet, takes the handle or uses it. -/
theorem moves_go (w : TxWorld) (k : Nat) : w.Moves (.goes k) (w.go k) := by
  unfold go
  cases hk : w.tasks[k]? with
  | none => exact .quiet (.refl w.scene) fun j => rfl
  | some task =>
    obtain ⟨own, stage⟩ := task
    have hgoes := AckStage.next_goes own stage w.scene
    show w.Moves (.goes k)
      ⟨(stage.next own w.scene).2, w.tasks.set k ⟨own, (stage.next own w.scene).1⟩⟩
    -- all that is known of the step is how steps go
    generalize stage.next own w.scene = here at hgoes
    cases hgoes with
    | loses hdecided hdiffers => exact moves_goes_of_quiet hk (.refl w.scene) rfl rfl
    | decides hown => exact moves_goes_of_quiet hk (w.scene.quiet_decided own) rfl rfl
    | looks => exact moves_goes_of_quiet hk (.refl w.scene) rfl rfl
    | waited honward hthrough => exact moves_goes_of_quiet hk (.of_futures _ honward) rfl rfl
    | givesUp honward => exact moves_goes_of_quiet hk (.of_futures _ honward) rfl rfl
    | finds => exact moves_goes_of_quiet hk (.refl w.scene) rfl rfl
    | rests => exact moves_goes_of_quiet hk (.refl w.scene) rfl rfl
    | @takes seen handle hslot =>
      have hhold : AckTask.hold? ⟨own, .holds seen handle⟩ = some ⟨own, seen, handle⟩ := rfl
      exact .takes rfl hslot rfl fun j => hhold ▸ hold?_set hk _ _ j
    | @speaks seen handle ending =>
      exact .speaks rfl (hold?_of_get hk) rfl (hold?_set hk ⟨own, .ended ending⟩ _)

/-- **A move says nothing, takes the handle, or acknowledges the outcome.** -/
theorem moves_after (w : TxWorld) (m : TxMove) : w.Moves m (w.after m) := by
  cases m with
  | happens op =>
    rcases w.scene.after_cases op with hquiet | ⟨hhandle, hupdate, handle, outcome, now, hacks⟩
    · exact .quiet hquiet fun j => rfl
    · exact .acknowledges rfl hhandle hupdate hacks fun j => rfl
  | begins own => exact .quiet (.refl w.scene) (hold?_begun own w.scene)
  | hears bound signal =>
    by_cases hsignal : signal = .silence
    · rw [hsignal]
      exact .quiet (.refl w.scene) fun j => rfl
    · obtain ⟨goesOn, outcome, hheard, -⟩ := Transaction.onSignal_of_heard bound hsignal w.scene
      have hquiet := w.scene.quiet_decided outcome
      rw [after, hheard]
      cases goesOn with
      | true => exact .quiet hquiet (hold?_begun .rolledBack _)
      | false => exact .quiet hquiet fun j => rfl
  | goes k => exact moves_go w k

/-- What stays, stays in a move. -/
theorem Moves.onward {m : TxMove} {w' : TxWorld} (h : w.Moves m w') : w.scene.Onward w'.scene := by
  cases h with
  | quiet hquiet _ => exact hquiet.onward
  | takes _ _ hscene _ =>
    rw [hscene]
    exact ⟨fun _ hdecided => hdecided, List.prefix_rfl, .refl w.scene.futures⟩
  | speaks _ _ hscene _ =>
    rw [hscene]
    exact ⟨fun _ hdecided => hdecided, List.prefix_rfl, .refl w.scene.futures⟩
  | acknowledges _ _ _ hacks _ => exact Transaction.onward_of_acknowledges hacks

/-! ### What the tasks rely on -/

/-- Every task may rely on what it saw. -/
def Fits (w : TxWorld) : Prop := ∀ task ∈ w.tasks, task.stage.Fits task.own w.scene

theorem fits_go (hfits : w.Fits) (k : Nat) : (w.go k).Fits := by
  have honward := (moves_go w k).onward
  unfold go at honward ⊢
  cases hk : w.tasks[k]? with
  | none => exact hfits
  | some task =>
    rw [hk] at honward
    intro other hother
    rcases List.mem_or_eq_of_mem_set hother with hother | rfl
    · exact (hfits other hother).onward honward
    · -- the task that makes the step leaves itself what it needs
      have hgoes := AckStage.next_goes task.own task.stage w.scene
      exact hgoes.fits (hfits task (List.mem_of_getElem? hk))

theorem fits_after (hfits : w.Fits) (m : TxMove) : (w.after m).Fits := by
  have honward := (moves_after w m).onward
  have hold : ∀ task ∈ w.tasks, task.stage.Fits task.own (w.after m).scene := by
    intro task htask
    exact (hfits task htask).onward honward
  -- a task that is just begun relies on nothing
  have hnew : ∀ own, ∀ task ∈ w.tasks ++ [⟨own, .called⟩],
      task.stage.Fits task.own (w.after m).scene := by
    intro own task htask
    rcases List.mem_append.1 htask with htask | htask
    · exact hold task htask
    · obtain rfl := List.mem_singleton.1 htask
      trivial
  cases m with
  | happens op => exact hold
  | begins own => exact hnew own
  | hears bound signal =>
    intro task htask
    cases hheard : Transaction.onSignal bound signal w.scene with
    | ok goesOn scene =>
      rw [after, hheard] at htask
      cases goesOn with
      | true => exact hnew .rolledBack task htask
      | false => exact hold task htask
    | error e scene =>
      rw [after, hheard] at htask
      exact hold task htask
  | goes k => exact fits_go hfits k

/-- Calls under way may rely on what they saw, whatever happened. -/
theorem afterAll_fits (hfits : w.Fits) (moves : List TxMove) : (w.afterAll moves).Fits := by
  induction moves generalizing w with
  | nil => exact hfits
  | cons m moves ih => exact ih (fits_after hfits m)

/-- A task that holds the handle has waited for the updates it saw. -/
theorem Fits.of_hold {hold : AckHold} (hfits : w.Fits) (hheld : w.hold? k = some hold) :
    w.scene.tx.outcome = some hold.own ∧ hold.seen <+: w.scene.tx.updates ∧
      w.scene.futures.Through hold.seen := by
  obtain ⟨⟨own, stage⟩, hk, htask⟩ := Option.bind_eq_some_iff.1 hheld
  have hstage := hfits _ (List.mem_of_getElem? hk)
  cases stage with
  | holds seen handle =>
    cases htask
    exact hstage
  | called => cases htask
  | decided => cases htask
  | waits seen left => cases htask
  | ended ending => cases htask

end Move

/-! ### Runs -/

/-- In a run from `w` no task took the handle; the first handle, if there is one, waits to be
used. -/
structure Silent (w : TxWorld) (handle : Option AckHandle) (moves : List TxMove) : Prop where
  xid : (w.afterAll moves).scene.tx.xid = w.scene.tx.xid
  slot : (w.afterAll moves).scene.tx.slot = .ofHandle? (handle.or (TxMove.installed moves))
  updates : (w.afterAll moves).scene.tx.updates = w.scene.tx.updates ++ TxMove.recorded moves
  calls : (w.afterAll moves).scene.coordinator.calls = w.scene.coordinator.calls
  idle : ∀ j, (w.afterAll moves).hold? j = none

/-- In a run from `w` the task with the number `k` took the handle, and it alone holds it; nothing
was said. -/
structure Taken (w : TxWorld) (handle : Option AckHandle) (moves : List TxMove) (k : Nat)
    (hold : AckHold) : Prop where
  xid : (w.afterAll moves).scene.tx.xid = w.scene.tx.xid
  slot : (w.afterAll moves).scene.tx.slot = .delivered
  updates : (w.afterAll moves).scene.tx.updates = w.scene.tx.updates ++ TxMove.recorded moves
  calls : (w.afterAll moves).scene.coordinator.calls = w.scene.coordinator.calls
  first : handle.or (TxMove.installed moves) = some hold.handle
  alone : ∀ j, (w.afterAll moves).hold? j = if j = k then some hold else none

/-- A run from `w` acknowledges an outcome with a handle, as `hold` has them; it is said by the move
`m` behind `before`, in the scene `now`. -/
structure AcknowledgedBy (w : TxWorld) (moves before : List TxMove) (m : TxMove) (hold : AckHold)
    (now : TxScene) : Prop where
  /-- The move is one of the run. -/
  within : before ++ [m] <+: moves
  /-- Nothing was said before. -/
  silent : now.coordinator.calls = w.scene.coordinator.calls
  /-- It is the outcome of the transaction that is said. -/
  decided : now.tx.outcome = some hold.own
  /-- If the outcome was decided before, it was the same. -/
  kept : ∀ decided, (w.afterAll before).scene.tx.outcome = some decided → decided = hold.own
  /-- The updates are all those that were recorded so far. -/
  updates : now.tx.updates = w.scene.tx.updates ++ TxMove.recorded before
  /-- It is said by a task that holds the handle, or else in one go, with all updates seen. -/
  made : (∃ k, m = .goes k ∧ (w.afterAll before).hold? k = some hold) ∨
    (∃ op, m = .happens op) ∧ hold.seen = now.tx.updates
  /-- The updates that were seen are the first ones. -/
  seen : hold.seen <+: now.tx.updates
  /-- None of those that were seen is under way. -/
  through : now.futures.Through hold.seen
  /-- It is said by the move, to the holder of the handle. -/
  said : (w.afterAll (before ++ [m])).scene =
    (Transaction.tell (hold.handle.call w.scene.tx.xid hold.own)).left now
  /-- Nothing is said afterwards. -/
  once : (w.afterAll moves).scene.coordinator.calls =
    w.scene.coordinator.calls ++ [hold.handle.call w.scene.tx.xid hold.own]
  /-- The outcome stays. -/
  stays : (w.afterAll moves).scene.tx.outcome = some hold.own
  /-- The handle was used up. -/
  used : (w.afterAll moves).scene.tx.slot = .delivered
  /-- No task is left that holds it. -/
  idle : ∀ j, (w.afterAll moves).hold? j = none

section Run

variable {w : TxWorld} {handle : Option AckHandle} {moves : List TxMove} {m : TxMove} {k : Nat}
  {hold : AckHold}

/-- A handle that is brought first stays the first. -/
theorem first_snoc (hfirst : handle.or (TxMove.installed moves) = some hold.handle) (m : TxMove) :
    handle.or (TxMove.installed (moves ++ [m])) = some hold.handle := by
  rw [TxMove.installed_snoc, ← Option.or_assoc, hfirst, Option.some_or]

theorem recorded_goes (moves : List TxMove) (k : Nat) :
    TxMove.recorded (moves ++ [.goes k]) = TxMove.recorded moves := by
  rw [TxMove.recorded_snoc]
  exact List.append_nil _

theorem Silent.quiet (h : w.Silent handle moves)
    (hquiet : (w.afterAll moves).scene.Quiet m.handle? m.update? (w.afterAll (moves ++ [m])).scene)
    (hholds : ∀ j, (w.afterAll (moves ++ [m])).hold? j = (w.afterAll moves).hold? j) :
    w.Silent handle (moves ++ [m]) := by
  constructor
  · rw [hquiet.xid, h.xid]
  · rw [hquiet.slot, h.slot, AckSlot.offered_ofHandle?, TxMove.installed_snoc, Option.or_assoc]
  · rw [hquiet.updates, h.updates, TxMove.recorded_snoc, List.append_assoc]
  · rw [hquiet.calls, h.calls]
  · intro j
    rw [hholds, h.idle]

/-- The handle in the slot is the first one that was brought. -/
theorem Silent.first (h : w.Silent handle moves) {used : AckHandle}
    (hslot : (w.afterAll moves).scene.tx.slot = .armed used) :
    handle.or (TxMove.installed moves) = some used := by
  rw [h.slot] at hslot
  cases hfirst : handle.or (TxMove.installed moves) with
  | none =>
    rw [hfirst] at hslot
    cases hslot
  | some other =>
    rw [hfirst] at hslot
    cases hslot
    rfl

theorem Silent.takes (h : w.Silent handle moves)
    (hslot : (w.afterAll moves).scene.tx.slot = .armed hold.handle)
    (hscene : (w.afterAll (moves ++ [.goes k])).scene = (w.afterAll moves).scene.used)
    (hholds : ∀ j, (w.afterAll (moves ++ [.goes k])).hold? j =
      if j = k then some hold else (w.afterAll moves).hold? j) :
    w.Taken handle (moves ++ [.goes k]) k hold := by
  constructor
  · rw [hscene]
    exact h.xid
  · rw [hscene]
    rfl
  · rw [hscene, recorded_goes]
    exact h.updates
  · rw [hscene]
    exact h.calls
  · exact first_snoc (h.first hslot) _
  · intro j
    rw [hholds, h.idle]

theorem Silent.acknowledges (h : w.Silent handle moves) {op : TxOp} {used : AckHandle}
    {outcome : TxOutcome} {now : TxScene}
    (hacks : (w.afterAll moves).scene.Acknowledges used outcome now
      (w.afterAll (moves ++ [.happens op])).scene)
    (hholds : ∀ j, (w.afterAll (moves ++ [.happens op])).hold? j = (w.afterAll moves).hold? j) :
    w.AcknowledgedBy (moves ++ [.happens op]) moves (.happens op)
      ⟨outcome, now.tx.updates, used⟩ now := by
  have hxid : now.tx.xid = w.scene.tx.xid := by rw [hacks.tx, h.xid]
  have hcalls : now.coordinator.calls = w.scene.coordinator.calls := by
    rw [hacks.coordinator, h.calls]
  have hsaid := hacks.said
  rw [hxid] at hsaid
  have hlast := hsaid
  rw [Transaction.tell_left, TxScene.saying] at hlast
  constructor
  · exact List.prefix_rfl
  · exact hcalls
  · rw [hacks.tx]
  · exact hacks.decided
  · rw [hacks.tx, h.updates]
  · exact .inr ⟨⟨op, rfl⟩, rfl⟩
  · exact List.prefix_rfl
  · exact hacks.through
  · exact hsaid
  · rw [hlast, hcalls]
  · rw [hlast, hacks.tx]
  · rw [hlast, hacks.tx]
  · intro j
    rw [hholds, h.idle]

theorem Taken.quiet (h : w.Taken handle moves k hold)
    (hquiet : (w.afterAll moves).scene.Quiet m.handle? m.update? (w.afterAll (moves ++ [m])).scene)
    (hholds : ∀ j, (w.afterAll (moves ++ [m])).hold? j = (w.afterAll moves).hold? j) :
    w.Taken handle (moves ++ [m]) k hold := by
  constructor
  · rw [hquiet.xid, h.xid]
  · rw [hquiet.slot, h.slot]
    rfl
  · rw [hquiet.updates, h.updates, TxMove.recorded_snoc, List.append_assoc]
  · rw [hquiet.calls, h.calls]
  · exact first_snoc h.first m
  · intro j
    rw [hholds, h.alone]

/-- It is the task that holds the handle that uses it. -/
theorem Taken.speaks (h : w.Taken handle moves k hold) (hfits : (w.afterAll moves).Fits)
    (hscene : (w.afterAll (moves ++ [.goes k])).scene = (w.afterAll moves).scene.saying
      (hold.handle.call (w.afterAll moves).scene.tx.xid hold.own))
    (hholds : ∀ j, (w.afterAll (moves ++ [.goes k])).hold? j =
      if j = k then none else (w.afterAll moves).hold? j) :
    w.AcknowledgedBy (moves ++ [.goes k]) moves (.goes k) hold (w.afterAll moves).scene := by
  have hheld : (w.afterAll moves).hold? k = some hold := by rw [h.alone, if_pos rfl]
  obtain ⟨hown, hseen, hthrough⟩ := hfits.of_hold hheld
  rw [h.xid] at hscene
  constructor
  · exact List.prefix_rfl
  · exact h.calls
  · exact hown
  · intro decided hdecided
    exact Option.some.inj (hdecided.symm.trans hown)
  · exact h.updates
  · exact .inl ⟨k, rfl, hheld⟩
  · exact hseen
  · exact hthrough
  · rw [hscene, Transaction.tell_left]
  · rw [hscene, ← h.calls]
    rfl
  · rw [hscene]
    exact hown
  · rw [hscene]
    exact h.slot
  · intro j
    rw [hholds, h.alone]
    split <;> rfl

theorem AcknowledgedBy.quiet {before : List TxMove} {first : TxMove} {now : TxScene}
    (h : w.AcknowledgedBy moves before first hold now)
    (hquiet : (w.afterAll moves).scene.Quiet m.handle? m.update? (w.afterAll (moves ++ [m])).scene)
    (hholds : ∀ j, (w.afterAll (moves ++ [m])).hold? j = (w.afterAll moves).hold? j) :
    w.AcknowledgedBy (moves ++ [m]) before first hold now where
  within := h.within.trans (List.prefix_append _ _)
  silent := h.silent
  decided := h.decided
  kept := h.kept
  updates := h.updates
  made := h.made
  seen := h.seen
  through := h.through
  said := h.said
  once := by rw [hquiet.calls, h.once]
  stays := hquiet.outcome _ h.stays
  used := by
    rw [hquiet.slot, h.used]
    rfl
  idle := by
    intro j
    rw [hholds, h.idle]

/-- In a run no task takes the handle, or one does and has said nothing yet, or the outcome is
acknowledged. -/
theorem afterAll_cases (htasks : w.tasks = []) (hslot : w.scene.tx.slot = .ofHandle? handle)
    (moves : List TxMove) :
    w.Silent handle moves ∨ (∃ k hold, w.Taken handle moves k hold) ∨
      ∃ before m hold now, handle.or (TxMove.installed before) = some hold.handle ∧
        w.AcknowledgedBy moves before m hold now := by
  have hnone : w.Fits := by
    intro task htask
    rw [htasks] at htask
    cases htask
  induction moves using List.reverseRecOn with
  | nil =>
    refine .inl ⟨rfl, ?_, (List.append_nil _).symm, rfl, fun j => ?_⟩
    · show w.scene.tx.slot = _
      rw [hslot, TxMove.installed, List.findSome?_nil, Option.or_none]
    · show w.tasks[j]?.bind _ = none
      rw [htasks]
      rfl
  | append_singleton moves m ih =>
    -- what the task that holds the handle saw, it saw at some earlier time
    have hfits := afterAll_fits hnone moves
    have hmoves := moves_after (w.afterAll moves) m
    rw [← afterAll_snoc] at hmoves
    rcases ih with h | ⟨k, hold, h⟩ | ⟨before, first, hold, now, hfirst, h⟩
    · -- nobody holds the handle, so nobody uses it
      cases hmoves with
      | quiet hquiet hholds => exact .inl (h.quiet hquiet hholds)
      | @takes k hold hm hslot hscene hholds =>
        subst hm
        exact .inr (.inl ⟨k, hold, h.takes hslot hscene hholds⟩)
      | speaks hm hheld hscene hholds =>
        rw [h.idle] at hheld
        cases hheld
      | @acknowledges op used outcome now hm hhandle hupdate hacks hholds =>
        subst hm
        exact .inr (.inr ⟨moves, _, _, now, h.first hacks.slot, h.acknowledges hacks hholds⟩)
    · -- the handle is out of the slot, and only the one task can use it
      cases hmoves with
      | quiet hquiet hholds => exact .inr (.inl ⟨k, hold, h.quiet hquiet hholds⟩)
      | takes hm hslot hscene hholds => cases h.slot.symm.trans hslot
      | @speaks j other hm hheld hscene hholds =>
        subst hm
        rw [h.alone] at hheld
        by_cases hj : j = k
        · subst hj
          obtain rfl := Option.some.inj ((if_pos rfl).symm.trans hheld)
          exact .inr (.inr ⟨moves, _, hold, _, h.first, h.speaks hfits hscene hholds⟩)
        · cases (if_neg hj).symm.trans hheld
      | acknowledges hm hhandle hupdate hacks hholds => cases h.slot.symm.trans hacks.slot
    · -- the handle was used up, so there is none to take or to use
      cases hmoves with
      | quiet hquiet hholds =>
        exact .inr (.inr ⟨before, first, hold, now, hfirst, h.quiet hquiet hholds⟩)
      | takes hm hslot hscene hholds => cases h.used.symm.trans hslot
      | speaks hm hheld hscene hholds =>
        rw [h.idle] at hheld
        cases hheld
      | acknowledges hm hhandle hupdate hacks hholds => cases h.used.symm.trans hacks.slot

end Run

end TxWorld

end PageLog
