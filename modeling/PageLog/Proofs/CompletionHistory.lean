import Mathlib.Data.List.TakeWhile
import PageLog.Completion.Handles
import PageLog.Proofs.Completion

/-!
# The history of a completion cell

Calls on a cell are made through any of its handles, in any order.  What they answer is written down
in the order in which they return, together with the outcomes that arrive while a wait goes on; a
wait that never returns leaves no trace, and neither does one that breaks off before it looks at the
cell, as its bound is more than the clock can count.  In such a history only two things count: which
outcome was brought first, and whether a wait took it since.

## Main definitions

* `Completion.Call`, `Completion.Call.act` — the calls, as steps on a cell.
* `Completion.Event`, `Completion.Lawful` — a call with its answer, and histories in which every
  answer is the right one.
* `Handles.Use`, `Handles.history` — what is done with handles, and the history of one of the cells.

## Main results

* `Completion.Tells.call` — a call on a cell that is as its history says.
* `Handles.tells_run` — any uses of handles.
* `cells_are_finished_once_and_taken_once` — **all histories are lawful, and a wait that is given up
  leaves no trace.**
-/

namespace PageLog

namespace Completion

variable {α : Type}

/-! ### Calls and their histories -/

/-- A call on a cell. -/
inductive Call (α : Type) where
  /-- An outcome is brought. -/
  | finish (r : Result α)
  /-- Someone else sets out to bring an outcome. -/
  | finishLater (delay : Duration) (r : Result α)
  /-- Whether an outcome arrived. -/
  | isDone
  /-- The outcome is waited for and taken. -/
  | wait
  /-- The outcome is waited for, within a bound, and taken. -/
  | waitFor (bound : Duration) (operation : String)
  /-- The outcome is waited for, within a bound, and left in place. -/
  | waitFinishedFor (bound : Duration) (operation : String)
  deriving DecidableEq

/-- What a call gives if it does not fail. -/
inductive Reply (α : Type) where
  /-- Yes or no. -/
  | flag (b : Bool)
  /-- The outcome. -/
  | value (a : α)
  /-- Nothing. -/
  | done
  deriving DecidableEq

namespace Call

/-- The call as a step on a cell. -/
def act : Call α → Act (Completion α) (Reply α)
  | finish r => .flag <$> modifyGet (Completion.finish r)
  | finishLater delay r => (fun _ => .done) <$> modify (Completion.finishLater delay r)
  | isDone => (fun c => .flag c.isDone) <$> get
  | wait => .value <$> Completion.wait
  | waitFor bound operation => .value <$> Completion.waitFor bound operation
  | waitFinishedFor bound operation =>
      (fun _ => .done) <$> Completion.waitFinishedFor bound operation

/-- The outcome that a call brings. -/
def brings : Call α → Option (Result α)
  | finish r => some r
  | _ => none

/-- Whether a call takes the outcome. -/
def takes : Call α → Bool
  | wait | waitFor .. => true
  | _ => false

/-- How long a call waits at most, if it is bounded, and what it is called in messages. -/
def limit? : Call α → Option (Duration × String)
  | waitFor bound operation | waitFinishedFor bound operation => some (bound, operation)
  | _ => none

/-- Whether a call waits for the outcome. -/
def waits : Call α → Bool
  | wait | waitFor .. | waitFinishedFor .. => true
  | _ => false

end Call

/-- A call that returned, and its answer. -/
structure Event (α : Type) where
  /-- The call. -/
  call : Call α
  /-- Its answer. -/
  answer : Result (Reply α)
  deriving DecidableEq

/-- The outcome that was brought first. -/
def arrived (past : List (Event α)) : Option (Result α) := past.findSome? fun e => e.call.brings

/-- Whether a wait took the outcome since one was brought. -/
def taken (past : List (Event α)) : Bool :=
  (past.dropWhile fun e => e.call.brings.isNone).any fun e => e.call.takes

/-- What a taking wait answers once an outcome was brought. -/
def given (past : List (Event α)) (r : Result α) : Result (Reply α) :=
  if taken past then .error .notFound else r.map .value

/-- The answer of a call is the right one after what happened before. -/
def Event.Fits (past : List (Event α)) (e : Event α) : Prop :=
  match e.call with
  | .finish _ => e.answer = .ok (.flag (arrived past).isNone)
  | .finishLater .. => e.answer = .ok .done
  | .isDone => e.answer = .ok (.flag (arrived past).isSome)
  | .wait => ∃ r, arrived past = some r ∧ e.answer = given past r
  | .waitFor bound operation =>
      match arrived past with
      | some r => e.answer = given past r
      | none => e.answer = .error (.timeout operation bound)
  | .waitFinishedFor bound operation =>
      match arrived past with
      | some _ => e.answer = .ok .done
      | none => e.answer = .error (.timeout operation bound)

/-- Every event fits those before it, the first ones of which are `past`. -/
def Lawful : (past es : List (Event α)) → Prop
  | _, [] => True
  | past, e :: es => e.Fits past ∧ Lawful (past ++ [e]) es

/-- What arrives while a call goes on that finds the cell as `c` and leaves it as `c'`. -/
def arrival (c c' : Completion α) : List (Event α) :=
  match c.finished, c'.finished, c.underway with
  | false, true, some (_, r) => [⟨.finish r, (Call.finish r).act.answer c⟩]
  | _, _, _ => []

/-- What a call adds to the history of a cell that it finds as `c` and leaves as `c'`. -/
def Call.events (call : Call α) (answer : Result (Reply α)) (c c' : Completion α) :
    List (Event α) :=
  match call with
  | .finish _ | .finishLater .. | .isDone => [⟨call, answer⟩]
  | .wait => if c'.finished then arrival c c' ++ [⟨call, answer⟩] else []
  | .waitFor .. | .waitFinishedFor .. => arrival c c' ++ [⟨call, answer⟩]

/-! ### What a history says -/

/-- The cell is as its history says. -/
structure Tells (past : List (Event α)) (c : Completion α) : Prop where
  finished : c.finished = (arrived past).isSome
  outcome : c.outcome = if taken past then none else arrived past

section Histories

variable {past es es' : List (Event α)} {e : Event α} {c : Completion α} {r : Result α}

theorem lawful_append : Lawful past (es ++ es') ↔ Lawful past es ∧ Lawful (past ++ es) es' := by
  induction es generalizing past with
  | nil => simp [Lawful]
  | cons e es ih => simp [Lawful, ih, and_assoc]

theorem lawful_singleton : Lawful past [e] ↔ e.Fits past := by simp [Lawful]

/-- The first outcome that is brought stays. -/
theorem arrived_snoc : arrived (past ++ [e]) = (arrived past).or e.call.brings := by
  rw [arrived, List.findSome?_append, List.findSome?_singleton]
  rfl

theorem takes_of_brings {call : Call α} (h : call.brings = some r) : call.takes = false := by
  cases call with
  | finish _ => rfl
  | _ => cases h

/-- The outcome is taken by the first taking wait behind it. -/
theorem taken_snoc :
    taken (past ++ [e]) = (taken past || ((arrived past).isSome && e.call.takes)) := by
  induction past with
  | nil =>
    cases hbrings : e.call.brings with
    | none => simp [taken, arrived, hbrings]
    | some r => simp [taken, arrived, hbrings, takes_of_brings hbrings]
  | cons first past ih =>
    cases hbrings : first.call.brings with
    | none => simpa [taken, arrived, hbrings] using ih
    | some r => simp [taken, arrived, hbrings, Bool.or_assoc]

/-- Nothing is taken before something was brought. -/
theorem taken_of_arrived (h : arrived past = none) : taken past = false := by
  have hnone : past.dropWhile (fun e => e.call.brings.isNone) = [] := by
    rw [List.dropWhile_eq_nil_iff]
    intro e he
    exact Option.isNone_iff_eq_none.2 (List.findSome?_eq_none_iff.1 h e he)
  rw [taken, hnone, List.any_nil]

theorem tells_new : Tells [] (new : Completion α) := ⟨rfl, rfl⟩

theorem Tells.congr {c' : Completion α} (h : Tells past c) (hfinished : c'.finished = c.finished)
    (houtcome : c'.outcome = c.outcome) : Tells past c' :=
  ⟨hfinished.trans h.finished, houtcome.trans h.outcome⟩

/-- A call that neither brings the outcome nor takes it. -/
theorem Tells.pass (h : Tells past c) (hbrings : e.call.brings = none)
    (htakes : e.call.takes = true → arrived past = none) : Tells (past ++ [e]) c := by
  have harrived : arrived (past ++ [e]) = arrived past := by
    rw [arrived_snoc, hbrings, Option.or_none]
  have htaken : taken (past ++ [e]) = taken past := by
    rw [taken_snoc]
    cases htake : e.call.takes with
    | false => rw [Bool.and_false, Bool.or_false]
    | true => rw [htakes htake, Option.isSome_none, Bool.false_and, Bool.or_false]
  exact ⟨by rw [harrived]; exact h.finished, by rw [harrived, htaken]; exact h.outcome⟩

theorem Tells.isSome (h : Tells past c) (hdone : c.finished = true) : ∃ r, arrived past = some r :=
  Option.isSome_iff_exists.1 (h.finished.symm.trans hdone)

theorem Tells.eq_none (h : Tells past c) (hopen : c.finished = false) : arrived past = none :=
  Option.isSome_eq_false_iff.1 (h.finished.symm.trans hopen) |> Option.isNone_iff_eq_none.1

/-! ### Bringing an outcome -/

theorem act_finish_of_done (hdone : c.finished = true) :
    (Call.finish r).act c = .ok (.flag false) c := by
  have hfinish : finish r c = (false, c) := if_pos hdone
  show EStateM.Result.ok (Reply.flag (finish r c).1) (finish r c).2 = _
  rw [hfinish]

theorem act_finish_of_open (hopen : c.finished = false) :
    (Call.finish r).act c = .ok (.flag true) { c with finished := true, outcome := some r } := by
  have hfinish : finish r c = (true, { c with finished := true, outcome := some r }) :=
    if_neg (by rw [hopen]; exact Bool.false_ne_true)
  show EStateM.Result.ok (Reply.flag (finish r c).1) (finish r c).2 = _
  rw [hfinish]

/-- The first outcome brought is the one, and whoever brings it is told so; whoever comes later is
told so too, and changes nothing. -/
theorem Tells.finish (h : Tells past c) (r : Result α) :
    Event.Fits past ⟨.finish r, (Call.finish r).act.answer c⟩ ∧
      Tells (past ++ [⟨.finish r, (Call.finish r).act.answer c⟩]) ((Call.finish r).act.left c) := by
  cases hfinished : c.finished with
  | true =>
    obtain ⟨first, harrived⟩ := h.isSome hfinished
    -- somebody was first already
    have hact := act_finish_of_done (r := r) hfinished
    rw [Act.answer_of_ok hact, Act.left_of_ok hact]
    refine ⟨?_, ?_, ?_⟩
    · show Except.ok (Reply.flag false) = .ok (.flag (arrived past).isNone)
      rw [harrived]
      rfl
    · rw [arrived_snoc, harrived]
      exact hfinished
    · rw [arrived_snoc, taken_snoc, harrived, h.outcome, harrived]
      simp [Call.takes]
  | false =>
    have harrived := h.eq_none hfinished
    have hact := act_finish_of_open (r := r) hfinished
    rw [Act.answer_of_ok hact, Act.left_of_ok hact]
    refine ⟨?_, ?_, ?_⟩
    · show Except.ok (Reply.flag true) = .ok (.flag (arrived past).isNone)
      rw [harrived]
      rfl
    · rw [arrived_snoc, harrived]
      rfl
    · rw [arrived_snoc, taken_snoc, harrived, taken_of_arrived harrived]
      rfl

/-! ### Waiting -/

/-- How a wait goes. -/
inductive Goes (call : Call α) (c : Completion α) : Prop
  /-- The outcome is there. -/
  | done (hdone : c.finished = true)
  /-- The outcome arrives in time. -/
  | arrives {delay : Duration} {r : Result α} (hopen : c.finished = false)
      (hunderway : c.underway = some (delay, r)) (hact : call.act c = call.act c.arrive)
  /-- The bound elapses. -/
  | late {bound : Duration} {operation : String} (hlimit : call.limit? = some (bound, operation))
      (hopen : c.finished = false)
      (hact : call.act c = .error (.timeout operation bound) (c.nearer bound))
  /-- No one is about to bring an outcome. -/
  | never (hcall : call = .wait) (hopen : c.finished = false) (hnothing : c.arrive = c)

theorem goes (call : Call α) (hwaits : call.waits = true) (c : Completion α) : Goes call c := by
  cases hfinished : c.finished with
  | true => exact .done hfinished
  | false =>
    have harrived : ∀ {delay r}, c.underway = some (delay, r) → c.arrive.finished = true := by
      intro delay r hunderway
      rw [arrive_of_underway hfinished hunderway]
    -- waits differ in whether they are bounded, and in what they do with the outcome they find
    cases call with
    | finish _ => cases hwaits
    | finishLater _ _ => cases hwaits
    | isDone => cases hwaits
    | wait =>
      have hwait : wait c = take c.arrive := wait_of_open hfinished
      cases hunderway : c.underway with
      | some p =>
        have hdone := harrived hunderway
        exact .arrives hfinished hunderway
          (Act.map_congr _ (hwait.trans (wait_of_done hdone).symm))
      | none =>
        refine .never rfl hfinished ?_
        unfold arrive
        rw [hunderway]
    | waitFor bound operation =>
      rcases waitFinishedFor_goes bound operation hfinished with
        ⟨delay, r, hunderway, hwait⟩ | hwait
      · have hdone := harrived hunderway
        have hagain := waitFinishedFor_of_done bound operation hdone
        exact .arrives hfinished hunderway
          (Act.map_congr _ ((waitFor_of_ok hwait).trans (waitFor_of_ok hagain).symm))
      · exact .late rfl hfinished (Act.map_of_error (waitFor_of_error hwait))
    | waitFinishedFor bound operation =>
      rcases waitFinishedFor_goes bound operation hfinished with
        ⟨delay, r, hunderway, hwait⟩ | hwait
      · have hdone := harrived hunderway
        exact .arrives hfinished hunderway
          (Act.map_congr _ (hwait.trans (waitFinishedFor_of_done bound operation hdone).symm))
      · exact .late rfl hfinished (Act.map_of_error hwait)

/-- A wait on a finished cell need not wait. -/
theorem act_of_done (hdone : c.finished = true) {call : Call α} (hwaits : call.waits = true) :
    call.act c = if call.takes then (Reply.value <$> take : Act (Completion α) (Reply α)) c
      else .ok .done c := by
  cases call with
  | finish _ => cases hwaits
  | finishLater _ _ => cases hwaits
  | isDone => cases hwaits
  | wait => exact Act.map_congr _ (wait_of_done hdone)
  | waitFor bound operation =>
    exact Act.map_congr _ (waitFor_of_ok (waitFinishedFor_of_done bound operation hdone))
  | waitFinishedFor bound operation =>
    exact Act.map_of_ok (waitFinishedFor_of_done bound operation hdone)

theorem finished_of_done (hdone : c.finished = true) {call : Call α} (hwaits : call.waits = true) :
    (call.act.left c).finished = true := by
  have hact := act_of_done hdone hwaits
  cases htakes : call.takes with
  | false =>
    rw [htakes, if_neg Bool.false_ne_true] at hact
    rw [Act.left_of_ok hact]
    exact hdone
  | true =>
    rw [htakes, if_pos rfl] at hact
    rw [Act.left_congr hact, Act.left_map, finished_left_take]
    exact hdone

/-- A taking wait on a finished cell gives the outcome once, and then nothing. -/
theorem Tells.take (h : Tells past c) {call : Call α} (htakes : call.takes = true)
    (harrived : arrived past = some r)
    (hact : call.act c = (Reply.value <$> Completion.take : Act (Completion α) (Reply α)) c) :
    call.act.answer c = given past r ∧
      Tells (past ++ [⟨call, call.act.answer c⟩]) (call.act.left c) := by
  have houtcome := h.outcome
  have hfinished : c.finished = true := by rw [h.finished, harrived, Option.isSome_some]
  have hanswer : call.act.answer c = (Completion.take.answer c).map .value :=
    (Act.answer_congr hact).trans (Act.answer_map ..)
  have hleft : call.act.left c = Completion.take.left c :=
    (Act.left_congr hact).trans (Act.left_map ..)
  -- behind the call the outcome is taken, whatever the call answered
  have hbehind : ∀ (answer : Result (Reply α)) (c' : Completion α), c'.finished = true →
      c'.outcome = none → Tells (past ++ [⟨call, answer⟩]) c' := by
    intro answer c' hfinished hempty
    refine ⟨?_, ?_⟩
    · rw [arrived_snoc, harrived]
      exact hfinished
    · rw [taken_snoc, harrived, htakes, Option.isSome_some, Bool.true_and, Bool.or_true, if_pos rfl]
      exact hempty
  rw [harrived] at houtcome
  rw [hanswer, hleft]
  cases htaken : taken past with
  | true =>
    rw [htaken, if_pos rfl] at houtcome
    have htake := take_of_none houtcome
    rw [Act.answer_of_error htake, Act.left_of_error htake]
    refine ⟨?_, hbehind _ _ hfinished houtcome⟩
    rw [given, htaken, if_pos rfl]
    rfl
  | false =>
    rw [htaken, if_neg Bool.false_ne_true] at houtcome
    obtain ⟨hgives, hleaves⟩ := take_of_some houtcome
    rw [hgives, hleaves]
    refine ⟨?_, hbehind _ _ hfinished rfl⟩
    rw [given, htaken, if_neg Bool.false_ne_true]

/-- A wait on a finished cell fits its history. -/
theorem Tells.wait_of_done (h : Tells past c) (hdone : c.finished = true) {call : Call α}
    (hwaits : call.waits = true) :
    Event.Fits past ⟨call, call.act.answer c⟩ ∧
      Tells (past ++ [⟨call, call.act.answer c⟩]) (call.act.left c) := by
  obtain ⟨r, harrived⟩ := h.isSome hdone
  have hact := act_of_done hdone hwaits
  cases call with
  | finish _ => cases hwaits
  | finishLater _ _ => cases hwaits
  | isDone => cases hwaits
  | wait =>
    obtain ⟨hgiven, htells⟩ := h.take rfl harrived hact
    exact ⟨⟨r, harrived, hgiven⟩, htells⟩
  | waitFor bound operation =>
    have htakes : (Call.waitFor bound operation : Call α).takes = true := rfl
    obtain ⟨hgiven, htells⟩ := h.take htakes harrived hact
    refine ⟨?_, htells⟩
    rw [Event.Fits, harrived]
    exact hgiven
  | waitFinishedFor bound operation =>
    have hact : (Call.waitFinishedFor bound operation).act c = .ok .done c := hact
    rw [Act.answer_of_ok hact, Act.left_of_ok hact]
    refine ⟨?_, h.pass rfl nofun⟩
    rw [Event.Fits, harrived]

/-- What a wait adds to the history, unless it never returns. -/
theorem events_of_waits {call : Call α} (hwaits : call.waits = true) {answer : Result (Reply α)}
    {c' : Completion α} (hreturns : call = .wait → c'.finished = true) :
    call.events answer c c' = arrival c c' ++ [⟨call, answer⟩] := by
  cases call with
  | finish _ => cases hwaits
  | finishLater _ _ => cases hwaits
  | isDone => cases hwaits
  | wait => exact if_pos (hreturns rfl)
  | waitFor _ _ => rfl
  | waitFinishedFor _ _ => rfl

theorem waits_of_limit {call : Call α} {bound : Duration} {operation : String}
    (hlimit : call.limit? = some (bound, operation)) : call.waits = true := by
  cases call with
  | waitFor _ _ => rfl
  | waitFinishedFor _ _ => rfl
  | _ => cases hlimit

/-- A wait that was given up is all that it adds to the history. -/
theorem events_of_late {call : Call α} {bound : Duration} {operation : String}
    (hlimit : call.limit? = some (bound, operation)) {c' : Completion α}
    (hopen : c'.finished = false) (answer : Result (Reply α)) :
    call.events answer c c' = [⟨call, answer⟩] := by
  have hbounded : call = .wait → c'.finished = true := by
    rintro rfl
    cases hlimit
  have hnothing : arrival c c' = [] := by
    unfold arrival
    rw [hopen]
    cases c.finished <;> rfl
  rw [events_of_waits (waits_of_limit hlimit) hbounded, hnothing, List.nil_append]

/-- A wait that is given up fits the history, and counts for nothing in it. -/
theorem Tells.late (h : Tells past c) (hopen : c.finished = false) {call : Call α}
    {bound : Duration} {operation : String} (hlimit : call.limit? = some (bound, operation)) :
    Event.Fits past ⟨call, .error (.timeout operation bound)⟩ ∧
      Tells (past ++ [⟨call, .error (.timeout operation bound)⟩]) (c.nearer bound) := by
  have harrived := h.eq_none hopen
  have hpass : ∀ {e : Event α}, e.call.brings = none → Tells (past ++ [e]) (c.nearer bound) := by
    intro e hbrings
    exact (h.pass hbrings fun _ => harrived).congr rfl rfl
  cases call with
  | waitFor _ _ =>
    cases hlimit
    refine ⟨?_, hpass rfl⟩
    rw [Event.Fits, harrived]
  | waitFinishedFor _ _ =>
    cases hlimit
    refine ⟨?_, hpass rfl⟩
    rw [Event.Fits, harrived]
  | _ => cases hlimit

/-- A wait adds what fits the history, whether it finds the outcome, outlasts its arrival, is given
up or never returns. -/
theorem Tells.wait (h : Tells past c) {call : Call α} (hwaits : call.waits = true) :
    Lawful past (call.events (call.act.answer c) c (call.act.left c)) ∧
      Tells (past ++ call.events (call.act.answer c) c (call.act.left c)) (call.act.left c) := by
  cases goes call hwaits c with
  | done hdone =>
    obtain ⟨hfits, htells⟩ := h.wait_of_done hdone hwaits
    have hfinished := finished_of_done hdone hwaits
    -- the outcome was there before, so that the wait brings none
    have hnothing : arrival c (call.act.left c) = [] := by rw [arrival, hdone]
    rw [events_of_waits hwaits fun _ => hfinished, hnothing, List.nil_append]
    exact ⟨lawful_singleton.2 hfits, htells⟩
  | @arrives delay r hopen hunderway hact =>
    -- the outcome is brought first, and then the wait finds it
    obtain ⟨hfirst, hbrought⟩ := h.finish r
    have harrive := arrive_of_underway hopen hunderway
    have hdone : c.arrive.finished = true := by rw [harrive]
    rw [Act.left_of_ok (act_finish_of_open hopen)] at hbrought
    have houtcome : c.arrive.outcome = some r := by rw [harrive]
    have hthere := hbrought.congr hdone houtcome
    obtain ⟨hfits, htells⟩ := hthere.wait_of_done hdone hwaits
    have hfinished := finished_of_done hdone hwaits
    have hanswer : call.act.answer c = call.act.answer c.arrive := Act.answer_congr hact
    have hleft : call.act.left c = call.act.left c.arrive := Act.left_congr hact
    have harrival : arrival c (call.act.left c.arrive) =
        [⟨.finish r, (Call.finish r).act.answer c⟩] := by
      rw [arrival, hopen, hfinished, hunderway]
    rw [hanswer, hleft, events_of_waits hwaits fun _ => hfinished, harrival, ← List.append_assoc]
    exact ⟨lawful_append.2 ⟨lawful_singleton.2 hfirst, lawful_singleton.2 hfits⟩, htells⟩
  | @late bound operation hlimit hopen hact =>
    have hstill : (c.nearer bound).finished = false := hopen
    rw [Act.answer_of_error hact, Act.left_of_error hact, events_of_late hlimit hstill]
    obtain ⟨hfits, htells⟩ := h.late hopen hlimit
    exact ⟨lawful_singleton.2 hfits, htells⟩
  | never hcall hopen hnothing =>
    -- a wait that never returns adds nothing to the history
    subst hcall
    have hempty : c.outcome = none := by
      rw [h.outcome, h.eq_none hopen, ite_self]
    have hwait : Completion.wait c = .error .notFound c := by
      rw [wait_of_open hopen, hnothing, take_of_none hempty]
    have hact : Call.wait.act c = .error .notFound c := Act.map_of_error hwait
    have hnone : Call.wait.events (Call.wait.act.answer c) c c = [] :=
      if_neg (by rw [hopen]; exact Bool.false_ne_true)
    rw [Act.left_of_error hact, hnone, List.append_nil]
    exact ⟨trivial, h⟩

/-- A call on a cell that is as its history says adds what fits the history. -/
theorem Tells.call (h : Tells past c) (call : Call α) :
    Lawful past (call.events (call.act.answer c) c (call.act.left c)) ∧
      Tells (past ++ call.events (call.act.answer c) c (call.act.left c)) (call.act.left c) := by
  cases call with
  | finish r =>
    obtain ⟨hfits, htells⟩ := h.finish r
    exact ⟨lawful_singleton.2 hfits, htells⟩
  | finishLater delay r =>
    have hact : (Call.finishLater delay r).act c = .ok .done (c.finishLater delay r) := rfl
    obtain ⟨hfinished, houtcome⟩ := finishLater_keeps delay r c
    have hpass : Tells (past ++ [⟨.finishLater delay r, .ok .done⟩]) c := h.pass rfl nofun
    rw [Act.answer_of_ok hact, Act.left_of_ok hact]
    exact ⟨lawful_singleton.2 rfl, hpass.congr hfinished houtcome⟩
  | isDone =>
    have hact : Call.isDone.act c = .ok (.flag c.finished) c := rfl
    rw [Act.answer_of_ok hact, Act.left_of_ok hact]
    refine ⟨lawful_singleton.2 ?_, h.pass rfl nofun⟩
    rw [Event.Fits, h.finished]
  | wait => exact h.wait rfl
  | waitFor bound operation => exact h.wait rfl
  | waitFinishedFor bound operation => exact h.wait rfl

/-- A bounded wait that leaves the cell unfinished was given up, and only let the time pass. -/
theorem act_of_late {call : Call α} {bound : Duration} {operation : String}
    (hlimit : call.limit? = some (bound, operation)) (hopen : (call.act.left c).finished = false) :
    call.act c = .error (.timeout operation bound) (c.nearer bound) := by
  have hwaits := waits_of_limit hlimit
  cases goes call hwaits c with
  | done hdone =>
    rw [finished_of_done hdone hwaits] at hopen
    cases hopen
  | @arrives delay r hclosed hunderway hact =>
    have hdone : c.arrive.finished = true := by rw [arrive_of_underway hclosed hunderway]
    have hfinished := finished_of_done hdone hwaits
    rw [← Act.left_congr hact, hopen] at hfinished
    cases hfinished
  | late hlimit' _ hact =>
    rw [hlimit] at hlimit'
    cases hlimit'
    exact hact
  | never hcall _ _ =>
    subst hcall
    cases hlimit

end Histories

end Completion

/-! ### Handles -/

namespace Handles

open Completion

variable {α : Type}

/-- What is done with handles. -/
inductive Use (α : Type) where
  /-- A handle on another cell. -/
  | add (handle : String) (cell : Completion α)
  /-- Another handle on the cell of a handle. -/
  | clone (handle source : String)
  /-- A call through a handle. -/
  | call (handle : String) (call : Completion.Call α)
  /-- A wait through a handle that breaks off: its end would be behind the last moment that the
  clock can count.  Which bounds are too long depends on the time of the call. -/
  | breakOff (handle : String) (bound : Duration) (operation : String)

/-- The cell with a given number. -/
def cellAt (h : Handles α) (k : Nat) : Completion α := h.cells.getD k .new

/-- The handles and cells afterwards. -/
def Use.left : Use α → Handles α → Handles α
  | .add handle cell, h => h.add handle cell
  | .clone handle source, h => h.clone handle source
  | .call handle made, h => (Handles.on handle made.act).left h
  | .breakOff .., h => h

/-- What a use adds to the history of the cell with number `k`. -/
def Use.events (k : Nat) : Use α → Handles α → List (Event α)
  | .add .., _ | .clone .., _ | .breakOff .., _ => []
  | .call handle made, h =>
      if h.cell handle = k then
        made.events ((Handles.on handle made.act).answer h) (h.cellAt k)
          (((Handles.on handle made.act).left h).cellAt k)
      else []

/-- The handles and cells after several uses. -/
def leftAll (uses : List (Use α)) (h : Handles α) : Handles α :=
  uses.foldl (fun h use => use.left h) h

/-- The history of the cell with number `k`. -/
def history (k : Nat) : List (Use α) → Handles α → List (Event α)
  | [], _ => []
  | use :: uses, h => use.events k h ++ history k uses (use.left h)

section Runs

variable {h : Handles α} {k : Nat}

theorem answer_call (handle : String) (made : Completion.Call α) (h : Handles α) :
    (Handles.on handle made.act).answer h = made.act.answer (h.cellAt (h.cell handle)) :=
  Act.answer_on ..

theorem left_call (handle : String) (made : Completion.Call α) (h : Handles α) :
    (Handles.on handle made.act).left h = { h with
      cells := h.cells.setIfInBounds (h.cell handle) (made.act.left (h.cellAt (h.cell handle))) } :=
  Act.left_on ..

theorem cellAt_left_self {handle : String} (hk : k < h.cells.size) (hcell : h.cell handle = k)
    (made : Completion.Call α) :
    ((Handles.on handle made.act).left h).cellAt k = made.act.left (h.cellAt k) := by
  rw [left_call, hcell]
  simp [cellAt, hk]

theorem cellAt_left_other {handle : String} (hcell : h.cell handle ≠ k) (made : Completion.Call α) :
    ((Handles.on handle made.act).left h).cellAt k = h.cellAt k := by
  rw [left_call]
  simp [cellAt, hcell]

theorem setIfInBounds_cellAt (hk : k < h.cells.size) :
    h.cells.setIfInBounds k (h.cellAt k) = h.cells := by
  rw [Array.setIfInBounds, dif_pos hk]
  simp [cellAt, hk]

/-- No cell goes away. -/
theorem size_le_left (use : Use α) (h : Handles α) : h.cells.size ≤ (use.left h).cells.size := by
  cases use with
  | add handle cell => simp [Use.left, add]
  | clone handle source => exact Nat.le_refl h.cells.size
  | call handle made => simp [Use.left, left_call]
  | breakOff handle bound operation => exact Nat.le_refl h.cells.size

theorem size_le_leftAll (uses : List (Use α)) (h : Handles α) :
    h.cells.size ≤ (leftAll uses h).cells.size := by
  induction uses generalizing h with
  | nil => exact Nat.le_refl _
  | cons use uses ih => exact Nat.le_trans (size_le_left use h) (ih (use.left h))

/-- A use of handles adds to the history of a cell what fits it. -/
theorem tells_use {past : List (Event α)} (htells : Tells past (h.cellAt k))
    (hk : k < h.cells.size) (use : Use α) :
    Lawful past (use.events k h) ∧ Tells (past ++ use.events k h) ((use.left h).cellAt k) := by
  cases use with
  | add handle cell =>
    have hsame : (h.add handle cell).cellAt k = h.cellAt k := by
      simp [cellAt, add, Array.getElem?_push, Nat.ne_of_lt hk]
    refine ⟨trivial, ?_⟩
    rw [Use.events, List.append_nil, Use.left, hsame]
    exact htells
  | clone handle source =>
    refine ⟨trivial, ?_⟩
    rw [Use.events, List.append_nil]
    exact htells
  | call handle made =>
    rw [Use.events, Use.left]
    -- a call through a handle on another cell is none on this one
    split
    · rename_i hcell
      rw [answer_call, cellAt_left_self hk hcell, hcell]
      exact htells.call made
    · rename_i hcell
      rw [List.append_nil, cellAt_left_other hcell]
      exact ⟨trivial, htells⟩
  | breakOff handle bound operation =>
    refine ⟨trivial, ?_⟩
    rw [Use.events, List.append_nil]
    exact htells

/-- Whatever is done with handles, the history of a cell fits its beginning. -/
theorem tells_run {past : List (Event α)} (htells : Tells past (h.cellAt k))
    (hk : k < h.cells.size) (uses : List (Use α)) :
    Lawful past (history k uses h) ∧
      Tells (past ++ history k uses h) ((leftAll uses h).cellAt k) := by
  induction uses generalizing past h with
  | nil =>
    refine ⟨trivial, ?_⟩
    rw [history, List.append_nil]
    exact htells
  | cons use uses ih =>
    obtain ⟨hlawful, hnext⟩ := tells_use htells hk use
    obtain ⟨hrest, hend⟩ := ih hnext (Nat.lt_of_lt_of_le hk (size_le_left use h))
    rw [List.append_assoc] at hend
    exact ⟨lawful_append.2 ⟨hlawful, hrest⟩, hend⟩

theorem leftAll_append (uses uses' : List (Use α)) (h : Handles α) :
    leftAll (uses ++ uses') h = leftAll uses' (leftAll uses h) := List.foldl_append

theorem history_append (uses uses' : List (Use α)) (h : Handles α) :
    history k (uses ++ uses') h = history k uses h ++ history k uses' (leftAll uses h) := by
  induction uses generalizing h with
  | nil => rfl
  | cons use uses ih =>
    rw [List.cons_append, history, history, ih, List.append_assoc]
    rfl

theorem tells_add (handle : String) (h : Handles α) :
    Tells [] ((h.add handle .new).cellAt h.cells.size) := by
  have hnew : (h.add handle .new).cellAt h.cells.size = .new := by simp [cellAt, add]
  rw [hnew]
  exact tells_new

end Runs

end Handles

open Completion Handles in
/-- **All histories are lawful, and a wait that is given up leaves no trace.**  A new cell is used
through any handles, among any other cells: its history is lawful.  The first outcome that is
brought is told so and stays, the first taking wait behind it gets it, every later one finds
nothing, and a wait that only looks takes nothing.  A wait that is given up leaves all handles and
cells as they were but for the time that passed; where no outcome was on its way it leaves them
exactly so, and what comes behind goes as it goes without that wait. -/
theorem cells_are_finished_once_and_taken_once {α : Type} (h : Handles α) (handle : String)
    (uses : List (Handles.Use α)) :
    let k := h.cells.size
    let start := h.add handle .new
    Lawful [] (history k uses start) ∧
    ∀ before other made after bound operation, uses = before ++ .call other made :: after →
      let h₁ := leftAll before start
      let h₂ := leftAll (before ++ [.call other made]) start
      h₁.cell other = k → Completion.Call.limit? made = some (bound, operation) →
      (h₂.cellAt k).finished = false →
        h₂ = { h₁ with cells := h₁.cells.setIfInBounds k ((h₁.cellAt k).nearer bound) } ∧
        ((h₁.cellAt k).underway = none → h₂ = h₁ ∧
          history k uses start = history k before start ++
            ⟨made, .error (.timeout operation bound)⟩ :: history k after h₁ ∧
          history k (before ++ after) start = history k before start ++ history k after h₁) := by
  intro k start
  have hk : k < start.cells.size := by simp [start, k, Handles.add]
  refine ⟨(tells_run (tells_add handle h) hk uses).1, ?_⟩
  rintro before other made after bound operation rfl h₁ h₂ hcell hlimit hopen
  have hk₁ : k < h₁.cells.size := Nat.lt_of_lt_of_le hk (size_le_leftAll before start)
  have hh₂ : h₂ = (Handles.on other made.act).left h₁ := leftAll_append before _ start
  have hopen' := hopen
  rw [hh₂, cellAt_left_self hk₁ hcell] at hopen'
  -- a cell that is open behind a wait with a bound made the wait give up
  have hact := act_of_late hlimit hopen'
  have hleft : h₂ = { h₁ with cells := h₁.cells.setIfInBounds k ((h₁.cellAt k).nearer bound) } := by
    rw [hh₂, left_call, hcell, Act.left_of_error hact]
  refine ⟨hleft, fun hnothing => ?_⟩
  have hsame : h₂ = h₁ := by
    rw [hleft, nearer_of_none bound hnothing, setIfInBounds_cellAt hk₁]
  refine ⟨hsame, ?_, history_append before after start⟩
  -- the wait itself is all that it adds to the history
  have hmade : made.events ((Handles.on other made.act).answer h₁) (h₁.cellAt k)
      (((Handles.on other made.act).left h₁).cellAt k) =
        [⟨made, .error (.timeout operation bound)⟩] := by
    rw [← hh₂, events_of_late hlimit hopen, answer_call, hcell, Act.answer_of_error hact]
  have hnext : Use.left (.call other made) h₁ = h₁ := by rw [Use.left, ← hh₂, hsame]
  rw [history_append, history, Use.events, if_pos hcell, hmade, hnext]
  rfl

open Completion Handles in
/-- One wait is given up before an outcome is on its way, another one before it is there. -/
theorem cells_are_finished_once_and_taken_once_through_clones :
    let start := (Handles.empty : Handles Nat).add "first" .new
    let before : List (Handles.Use Nat) := [.clone "second" "first"]
    let early : Completion.Call Nat := .waitFor ⟨5⟩ "take"
    let after : List (Handles.Use Nat) := [.call "first" .isDone,
      .call "first" (.finishLater ⟨10⟩ (.ok 7)), .call "second" (.waitFinishedFor ⟨3⟩ "look"),
      .call "second" (.waitFor ⟨20⟩ "take"), .call "first" (.finish (.ok 9)), .call "first" .wait]
    let later : List (Event Nat) := [⟨.isDone, .ok (.flag false)⟩,
      ⟨.finishLater ⟨10⟩ (.ok 7), .ok .done⟩,
      ⟨.waitFinishedFor ⟨3⟩ "look", .error (.timeout "look" ⟨3⟩)⟩,
      ⟨.finish (.ok 7), .ok (.flag true)⟩, ⟨.waitFor ⟨20⟩ "take", .ok (.value 7)⟩,
      ⟨.finish (.ok 9), .ok (.flag false)⟩, ⟨.wait, .error .notFound⟩]
    Lawful [] (⟨early, .error (.timeout "take" ⟨5⟩)⟩ :: later) ∧
      history 0 (before ++ .call "second" early :: after) start =
        ⟨early, .error (.timeout "take" ⟨5⟩)⟩ :: later ∧
      history 0 (before ++ after) start = later := by
  intro start before early after later
  obtain ⟨hlawful, hlate⟩ := cells_are_finished_once_and_taken_once Handles.empty "first"
    (before ++ .call "second" early :: after)
  obtain ⟨-, hgone⟩ := hlate before "second" early after ⟨5⟩ "take" rfl rfl rfl rfl
  obtain ⟨-, hwith, hwithout⟩ := hgone rfl
  have hbefore : history 0 before start = [] := rfl
  have hafter : history 0 after (leftAll before start) = later := by decide +kernel
  have hsize : (Handles.empty : Handles Nat).cells.size = 0 := rfl
  rw [hsize, hbefore, hafter, List.nil_append] at hwith hwithout
  rw [hsize, hwith] at hlawful
  exact ⟨hlawful, hwith, hwithout⟩

end PageLog
