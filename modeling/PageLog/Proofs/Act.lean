import PageLog.Error

/-!
# Steps that succeed and steps that fail

A step built with `do` is taken apart here into the steps it consists of.  The lemmas are stated
for a step applied to a state, since a claim about a run names the states it goes through.

## Main results

* `Act.bind_of_ok`, `Act.bind_of_error` — a step after a step that succeeds or fails.
* `Act.bind_eq_ok` — the steps that a successful step consists of.
* `Act.on_of_ok`, `Act.on_of_error` — a step on a part of the state.
* `Act.left` — the state behind a step, whether it succeeds or fails.
* `Act.answer` — what a step gives, whatever state is behind it.
* `Act.series` — one step after another, with what each of them gives.
* `Act.series_related`, `Act.series_picture` — the same steps on related states.
-/

namespace PageLog

namespace Act

variable {σ τ α β : Type}

/-! ### Outcomes -/

instance decEqResult [DecidableEq σ] [DecidableEq α] :
    DecidableEq (EStateM.Result Error σ α)
  | .ok a s, .ok b t => decidable_of_iff (a = b ∧ s = t) (by rw [EStateM.Result.ok.injEq])
  | .error e s, .error e' t =>
    decidable_of_iff (e = e' ∧ s = t) (by rw [EStateM.Result.error.injEq])
  | .ok _ _, .error _ _ => isFalse nofun
  | .error _ _, .ok _ _ => isFalse nofun

/-! ### Steps that cannot fail -/

@[simp] theorem pure_apply (a : α) (s : σ) : (pure a : Act σ α) s = .ok a s := rfl

/-! ### One step after another -/

theorem bind_apply (x : Act σ α) (f : α → Act σ β) (s : σ) :
    (x >>= f) s = match x s with
      | .ok a s => f a s
      | .error e s => .error e s := by
  simp only [bind, EStateM.bind]
  cases x s with
  | ok a t => rfl
  | error e t => rfl

theorem bind_of_ok {x : Act σ α} {f : α → Act σ β} {s s' : σ} {a : α} (h : x s = .ok a s') :
    (x >>= f) s = f a s' := by
  rw [bind_apply, h]

theorem bind_of_error {x : Act σ α} {f : α → Act σ β} {s s' : σ} {e : Error}
    (h : x s = .error e s') : (x >>= f) s = .error e s' := by
  rw [bind_apply, h]

/-- A step that succeeds consists of two steps that succeed. -/
theorem bind_eq_ok {x : Act σ α} {f : α → Act σ β} {s s' : σ} {b : β} :
    (x >>= f) s = .ok b s' ↔ ∃ a t, x s = .ok a t ∧ f a t = .ok b s' := by
  rw [bind_apply]
  cases x s with
  | ok a t =>
    refine ⟨fun h => ⟨a, t, rfl, h⟩, ?_⟩
    rintro ⟨_, _, ⟨⟩, h⟩
    exact h
  | error e t => simp

theorem get_bind (f : σ → Act σ β) (s : σ) : ((get : Act σ σ) >>= f) s = f s s := rfl

theorem modify_bind (g : σ → σ) (f : PUnit → Act σ β) (s : σ) :
    ((modify g : Act σ PUnit) >>= f) s = f ⟨⟩ (g s) := rfl

theorem map_of_ok {x : Act σ α} {f : α → β} {s s' : σ} {a : α} (h : x s = .ok a s') :
    (f <$> x) s = .ok (f a) s' := by
  simp [Functor.map, EStateM.map, h]

theorem map_of_error {x : Act σ α} {f : α → β} {s s' : σ} {e : Error} (h : x s = .error e s') :
    (f <$> x) s = .error e s' := by
  simp [Functor.map, EStateM.map, h]

/-- What is done with an answer does not depend on how it came about. -/
theorem map_congr {x y : Act σ α} {s t : σ} (f : α → β) (h : x s = y t) :
    (f <$> x) s = (f <$> y) t := by
  simp only [Functor.map, EStateM.map, h]

theorem discard_of_ok {x : Act σ α} {s s' : σ} {a : α} (h : x s = .ok a s') :
    (discard x) s = .ok ⟨⟩ s' :=
  map_of_ok h

/-! ### Looks and parts of the state -/

theorem look_of_ok {f : σ → Result α} {s : σ} {a : α} (h : f s = .ok a) :
    look f s = .ok a s := by
  simp only [look, h]

theorem look_of_error {f : σ → Result α} {s : σ} {e : Error} (h : f s = .error e) :
    look f s = .error e s := by
  simp only [look, h]

theorem look_eq_ok {f : σ → Result α} {s s' : σ} {a : α} :
    look f s = .ok a s' ↔ f s = .ok a ∧ s' = s := by
  simp only [look]
  cases f s with
  | ok b => simp [eq_comm]
  | error e => simp

theorem ofResult_eq_ok {r : Result α} {s s' : σ} {a : α} :
    ofResult r s = .ok a s' ↔ r = .ok a ∧ s' = s := by
  cases r with
  | ok b => simp [eq_comm]
  | error e => simp

theorem on_of_ok {get : σ → τ} {set : σ → τ → σ} {act : Act τ α} {s : σ} {t : τ} {a : α}
    (h : act (get s) = .ok a t) : on get set act s = .ok a (set s t) := by
  simp only [on, h]

theorem on_of_error {get : σ → τ} {set : σ → τ → σ} {act : Act τ α} {s : σ} {t : τ} {e : Error}
    (h : act (get s) = .error e t) : on get set act s = .error e (set s t) := by
  simp only [on, h]

theorem mapError_of_ok {f : Error → Error} {act : Act σ α} {s s' : σ} {a : α}
    (h : act s = .ok a s') : mapError f act s = .ok a s' := by
  simp only [mapError, h]

theorem mapError_of_error {f : Error → Error} {act : Act σ α} {s s' : σ} {e : Error}
    (h : act s = .error e s') : mapError f act s = .error (f e) s' := by
  simp only [mapError, h]

theorem exists_of_run' {x : Act σ α} {s : σ} {a : α} (h : EStateM.run' x s = some a) :
    ∃ s', x s = .ok a s' := by
  unfold EStateM.run' EStateM.run at h
  cases hx : x s with
  | ok b s' =>
    rw [hx] at h
    cases h
    exact ⟨s', rfl⟩
  | error e s' =>
    rw [hx] at h
    cases h

/-! ### What a step leaves -/

/-- The state behind a step, whether it succeeds or fails. -/
def left (x : Act σ α) (s : σ) : σ :=
  match x s with
  | .ok _ t => t
  | .error _ t => t

theorem left_of_ok {x : Act σ α} {s t : σ} {a : α} (h : x s = .ok a t) : x.left s = t := by
  rw [left, h]

theorem left_of_error {x : Act σ α} {s t : σ} {e : Error} (h : x s = .error e t) :
    x.left s = t := by
  rw [left, h]

theorem left_bind_of_ok {x : Act σ α} {f : α → Act σ β} {s t : σ} {a : α} (h : x s = .ok a t) :
    (x >>= f).left s = (f a).left t := by
  rw [left, bind_of_ok h, left]

theorem left_bind_of_error {x : Act σ α} {f : α → Act σ β} {s t : σ} {e : Error}
    (h : x s = .error e t) : (x >>= f).left s = t :=
  left_of_error (bind_of_error h)

theorem left_get_bind (f : σ → Act σ β) (s : σ) :
    ((get : Act σ σ) >>= f).left s = (f s).left s := rfl

theorem left_bind_pure (x : Act σ α) (f : α → β) (s : σ) :
    (x >>= fun a => (pure (f a) : Act σ β)).left s = x.left s := by
  cases h : x s with
  | ok a t =>
    rw [left_bind_of_ok h, left_of_ok h]
    rfl
  | error e t => rw [left_bind_of_error h, left_of_error h]

theorem left_congr {x y : Act σ α} {s t : σ} (h : x s = y t) : x.left s = y.left t := by
  rw [left, h, left]

theorem left_map (f : α → β) (x : Act σ α) (s : σ) : (f <$> x).left s = x.left s := by
  cases h : x s with
  | ok a t => rw [left_of_ok (map_of_ok h), left_of_ok h]
  | error e t => rw [left_of_error (map_of_error h), left_of_error h]

theorem left_discard (x : Act σ α) (s : σ) : (discard x).left s = x.left s :=
  left_bind_pure x (fun _ => PUnit.unit) s

/-! ### What a step gives -/

/-- What a step gives, without the state behind it. -/
def answer (x : Act σ α) (s : σ) : Result α :=
  match x s with
  | .ok a _ => .ok a
  | .error e _ => .error e

theorem answer_of_ok {x : Act σ α} {s t : σ} {a : α} (h : x s = .ok a t) :
    x.answer s = .ok a := by
  rw [answer, h]

theorem answer_of_error {x : Act σ α} {s t : σ} {e : Error} (h : x s = .error e t) :
    x.answer s = .error e := by
  rw [answer, h]

theorem answer_congr {x y : Act σ α} {s t : σ} (h : x s = y t) : x.answer s = y.answer t := by
  rw [answer, h, answer]

theorem answer_map (f : α → β) (x : Act σ α) (s : σ) :
    (f <$> x).answer s = (x.answer s).map f := by
  cases h : x s with
  | ok a t =>
    rw [answer_of_ok (map_of_ok h), answer_of_ok h]
    rfl
  | error e t =>
    rw [answer_of_error (map_of_error h), answer_of_error h]
    rfl

/-- The second of two steps is asked in the state behind the first. -/
theorem answer_bind_eq_ok {x : Act σ α} {f : α → Act σ β} {s : σ} {b : β} :
    (x >>= f).answer s = .ok b ↔
      ∃ a, x.answer s = .ok a ∧ (f a).answer (x.left s) = .ok b := by
  unfold answer left
  rw [bind_apply]
  cases x s with
  | ok a t => simp
  | error e t => simp

theorem answer_on (get : σ → τ) (set : σ → τ → σ) (act : Act τ α) (s : σ) :
    (on get set act).answer s = act.answer (get s) := by
  unfold answer on
  cases act (get s) with
  | ok a t => rfl
  | error e t => rfl

theorem left_on (get : σ → τ) (set : σ → τ → σ) (act : Act τ α) (s : σ) :
    (on get set act).left s = set s (act.left (get s)) := by
  unfold left on
  cases act (get s) with
  | ok a t => rfl
  | error e t => rfl

/-! ### Many steps -/

section Series

variable {ι : Type}

/-- Steps one after another, each from where the one before left off, whether that succeeded or
failed: what each of them answers, and the state behind the last. -/
def series (step : ι → Act σ α) : List ι → σ → List (Result α) × σ
  | [], s => ([], s)
  | i :: is, s =>
      match step i s with
      | .ok a t => ((.ok a :: (series step is t).1), (series step is t).2)
      | .error e t => ((.error e :: (series step is t).1), (series step is t).2)

theorem series_cons (step : ι → Act σ α) (i : ι) (is : List ι) (s : σ) :
    series step (i :: is) s =
      ((step i).answer s :: (series step is ((step i).left s)).1,
        (series step is ((step i).left s)).2) := by
  unfold answer left
  rw [series]
  cases step i s with
  | ok a t => rfl
  | error e t => rfl

/-- Steps that answer alike on related states, and relate the states behind them, answer alike all
the way. -/
theorem series_related {step : ι → Act σ α} {step' : ι → Act τ α} {R : σ → τ → Prop}
    {is : List ι}
    (hstep : ∀ i ∈ is, ∀ s t, R s t →
      (step i).answer s = (step' i).answer t ∧ R ((step i).left s) ((step' i).left t))
    {s : σ} {t : τ} (h : R s t) :
    (series step is s).1 = (series step' is t).1 ∧
      R (series step is s).2 (series step' is t).2 := by
  -- induction on the steps, from any related states
  induction is generalizing s t with
  | nil => exact ⟨rfl, h⟩
  | cons i is ih =>
    obtain ⟨hanswer, hleft⟩ := hstep i List.mem_cons_self s t h
    obtain ⟨hanswers, hend⟩ := ih (fun j hj => hstep j (List.mem_cons_of_mem i hj)) hleft
    rw [series_cons, series_cons, hanswer, hanswers]
    exact ⟨rfl, hend⟩

/-- An outcome with a picture of the state in place of the state. -/
def pictured (picture : τ → σ) : EStateM.Result Error τ α → EStateM.Result Error σ α
  | .ok a t => .ok a (picture t)
  | .error e t => .error e (picture t)

theorem of_pictured {x : Act σ α} {y : Act τ α} {picture : τ → σ} {s : σ} {t : τ}
    (h : x s = pictured picture (y t)) :
    x.answer s = y.answer t ∧ x.left s = picture (y.left t) := by
  unfold answer left
  rw [h]
  cases y t with
  | ok a t' => exact ⟨rfl, rfl⟩
  | error e t' => exact ⟨rfl, rfl⟩

/-- Steps on pictures are pictures of steps. -/
theorem series_picture {step : ι → Act σ α} {step' : ι → Act τ α} (picture : τ → σ)
    (inv : τ → Prop)
    (hstep : ∀ i t, inv t → step i (picture t) = pictured picture (step' i t))
    (hinv : ∀ i t, inv t → inv ((step' i).left t)) (is : List ι) {t : τ} (ht : inv t) :
    series step is (picture t) = ((series step' is t).1, picture (series step' is t).2) ∧
      inv (series step' is t).2 := by
  have hrelated : ∀ i ∈ is, ∀ s t, s = picture t ∧ inv t →
      (step i).answer s = (step' i).answer t ∧
        (step i).left s = picture ((step' i).left t) ∧ inv ((step' i).left t) := by
    rintro i - s t ⟨rfl, ht⟩
    obtain ⟨hanswer, hleft⟩ := of_pictured (hstep i t ht)
    exact ⟨hanswer, hleft, hinv i t ht⟩
  obtain ⟨hanswers, hend, hinv⟩ := series_related hrelated ⟨rfl, ht⟩
  exact ⟨Prod.ext hanswers hend, hinv⟩

end Series

end Act
end PageLog
