import CalendarStamp.Outcome

/-!
# Changes in place

A change works on a state in place: step by step it reads the state and writes
to it, and ends with a value or with an error.  The state that it has come to
remains in either case, so what was written before an error is not taken back.

That a change which fails has written nothing is therefore a property of the
change, which follows from the order of its steps: while it only reads it may
fail, and once it writes it may not.

Main results:

- Theorem `Steady.bind_atomic`: steps that only read may go before a change which
  leaves things alone when it fails.
- Theorem `Atomic.bind_total`: steps that cannot fail may go behind it.
- Theorem `Atomic.apply_of_error`: what such a change leaves when it fails.
-/

namespace CalendarStamp

/-- What is done to a state in place, with a value or an error in the end. -/
abbrev Change (σ ε α : Type) := ExceptT ε (StateM σ) α

namespace Change

variable {σ τ ρ ε δ α β : Type}

/-! ## Carrying out a change -/

/-- The outcome of a change and the state that it leaves, also when it fails. -/
def apply (change : Change σ ε α) (state : σ) : Except ε α × σ :=
  StateT.run (ExceptT.run change) state

/-- What comes of a change that succeeds: its value and the new state. -/
def attempt (change : Change σ ε α) (state : σ) : Except ε (α × σ) :=
  let (outcome, next) := change.apply state
  (·, next) <$> outcome

/-- A change with another error. -/
def mapError (step : ε → δ) (change : Change σ ε α) : Change σ δ α :=
  ExceptT.adapt step change

/-- A change of a part of the state, given where the part is found and how it is
put back. -/
def within (part : σ → τ) (place : σ → τ → σ) (change : Change τ ε α) : Change σ ε α :=
  ExceptT.mk fun state =>
    let (outcome, next) := change.apply (part state)
    (outcome, place state next)

section Steps

variable (state : σ) (next : α → Change σ ε β)

@[simp] theorem apply_pure (value : α) :
    (pure value : Change σ ε α).apply state = (.ok value, state) := rfl

@[simp] theorem apply_throw (e : ε) :
    (throw e : Change σ ε α).apply state = (.error e, state) := rfl

@[simp] theorem apply_get : (get : Change σ ε σ).apply state = (.ok state, state) := rfl

@[simp] theorem apply_modify (step : σ → σ) :
    (modify step : Change σ ε PUnit).apply state = (.ok (), step state) := rfl

@[simp] theorem apply_within (part : σ → τ) (place : σ → τ → σ) (change : Change τ ε α) :
    (change.within part place).apply state =
      ((change.apply (part state)).1, place state (change.apply (part state)).2) := rfl

/-- What a change reads first is the state that it starts from. -/
@[simp] theorem apply_get_bind (next : σ → Change σ ε β) :
    (get >>= next).apply state = (next state).apply state := rfl

@[simp] theorem apply_modify_bind (step : σ → σ) (next : PUnit → Change σ ε β) :
    (modify step >>= next).apply state = (next ()).apply (step state) := rfl

@[simp] theorem apply_set_bind (reached : σ) (next : PUnit → Change σ ε β) :
    (set reached >>= next).apply state = (next ()).apply reached := rfl

@[simp] theorem apply_ok_bind (value : α) :
    (liftM (Except.ok value : Except ε α) >>= next).apply state = (next value).apply state := rfl

@[simp] theorem apply_error_bind (e : ε) :
    (liftM (Except.error e : Except ε α) >>= next).apply state = (.error e, state) := rfl

end Steps

/-- A step that succeeds hands its value and its state on. -/
theorem apply_bind_of_ok {first : Change σ ε α} {next : α → Change σ ε β} {state reached : σ}
    {value : α} (h : first.apply state = (.ok value, reached)) :
    (first >>= next).apply state = (next value).apply reached := by
  change StateT.run (ExceptT.run first) state = _ at h
  change StateT.run (ExceptT.run first >>= ExceptT.bindCont next) state = _
  rw [StateT.run_bind, h]
  rfl

/-- A step that fails ends the change. -/
theorem apply_bind_of_error {first : Change σ ε α} {next : α → Change σ ε β} {state reached : σ}
    {e : ε} (h : first.apply state = (.error e, reached)) :
    (first >>= next).apply state = (.error e, reached) := by
  change StateT.run (ExceptT.run first) state = _ at h
  change StateT.run (ExceptT.run first >>= ExceptT.bindCont next) state = _
  rw [StateT.run_bind, h]
  rfl

/-- Changing the value of a change has no part in the state. -/
@[simp] theorem apply_map (step : α → β) (change : Change σ ε α) (state : σ) :
    (step <$> change).apply state =
      (step <$> (change.apply state).1, (change.apply state).2) := by
  rcases h : change.apply state with ⟨_ | value, reached⟩
  · exact apply_bind_of_error h
  · exact apply_bind_of_ok h

/-- Neither has changing its error. -/
@[simp] theorem apply_mapError (step : ε → δ) (change : Change σ ε α) (state : σ) :
    (change.mapError step).apply state =
      ((change.apply state).1.mapError step, (change.apply state).2) := rfl

/-! ## What comes of a change -/

section Steps

variable (state : σ)

@[simp] theorem attempt_throw (e : ε) : (throw e : Change σ ε α).attempt state = .error e := rfl

@[simp] theorem attempt_set (next : σ) :
    (set next : Change σ ε PUnit).attempt state = .ok ((), next) := rfl

@[simp] theorem attempt_modify (step : σ → σ) :
    (modify step : Change σ ε PUnit).attempt state = .ok ((), step state) := rfl

@[simp] theorem attempt_modifyGet (step : σ → α × σ) :
    (modifyGet step : Change σ ε α).attempt state = .ok (step state) := rfl

/-- What a change reads first is the state that it starts from. -/
@[simp] theorem attempt_get_bind (next : σ → Change σ ε β) :
    (get >>= next).attempt state = (next state).attempt state := rfl

/-- A step that does not depend on the state may be taken before. -/
@[simp] theorem attempt_lift_bind (outcome : Except ε α) (next : α → Change σ ε β) :
    (liftM outcome >>= next).attempt state =
      outcome >>= fun value => (next value).attempt state := by
  cases outcome <;> rfl

theorem attempt_mapError (step : ε → δ) (change : Change σ ε α) :
    (change.mapError step).attempt state = (change.attempt state).mapError step := by
  rw [attempt, attempt, apply_mapError]
  rcases change.apply state with ⟨_ | found, reached⟩ <;> rfl

theorem attempt_map (step : α → β) (change : Change σ ε α) :
    (step <$> change).attempt state = Prod.map step id <$> change.attempt state := by
  rw [attempt, attempt, apply_map]
  rcases change.apply state with ⟨_ | found, reached⟩ <;> rfl

end Steps

theorem attempt_bind_of_ok {first : Change σ ε α} {next : α → Change σ ε β} {state reached : σ}
    {value : α} (h : first.apply state = (.ok value, reached)) :
    (first >>= next).attempt state = (next value).attempt reached := by
  rw [attempt, attempt, apply_bind_of_ok h]

theorem attempt_bind_of_error {first : Change σ ε α} {next : α → Change σ ε β}
    {state reached : σ} {e : ε} (h : first.apply state = (.error e, reached)) :
    (first >>= next).attempt state = .error e := by
  rw [attempt, apply_bind_of_error h]
  rfl

/-- A change succeeds when its outcome is a value. -/
theorem attempt_eq_ok {change : Change σ ε α} {state next : σ} {value : α} :
    change.attempt state = .ok (value, next) ↔ change.apply state = (.ok value, next) := by
  unfold attempt
  rcases change.apply state with ⟨_ | found, reached⟩ <;> simp

/-- A change fails when its outcome is an error. -/
theorem attempt_eq_error {change : Change σ ε α} {state : σ} {e : ε} :
    change.attempt state = .error e ↔ (change.apply state).1 = .error e := by
  unfold attempt
  rcases change.apply state with ⟨_ | found, reached⟩ <;> simp

/-! ## Changes that leave things alone -/

variable {view : σ → ρ}

/-- Whether a change leaves what is seen of the state as it is. -/
def Steady (view : σ → ρ) (change : Change σ ε α) : Prop :=
  ∀ state, view (change.apply state).2 = view state

/-- Whether a change that fails leaves what is seen of the state as it was. -/
def Atomic (view : σ → ρ) (change : Change σ ε α) : Prop :=
  ∀ state e, (change.apply state).1 = .error e →
    view (change.apply state).2 = view state

/-- Whether a change cannot fail. -/
def Total (change : Change σ ε α) : Prop :=
  ∀ state, ∃ value, (change.apply state).1 = .ok value

theorem steady_pure (value : α) : Steady view (pure value : Change σ ε α) := fun _ => rfl

theorem steady_throw (e : ε) : Steady view (throw e : Change σ ε α) := fun _ => rfl

theorem steady_get : Steady view (get : Change σ ε σ) := fun _ => rfl

theorem steady_lift (outcome : Except ε α) : Steady view (liftM outcome : Change σ ε α) :=
  fun _ => rfl

theorem total_pure (value : α) : Total (pure value : Change σ ε α) := fun _ => ⟨_, rfl⟩

theorem total_set (next : σ) : Total (set next : Change σ ε PUnit) := fun _ => ⟨_, rfl⟩

theorem total_modify (step : σ → σ) : Total (modify step : Change σ ε PUnit) :=
  fun _ => ⟨_, rfl⟩

theorem total_modifyGet (step : σ → α × σ) : Total (modifyGet step : Change σ ε α) :=
  fun _ => ⟨_, rfl⟩

/-- What only reads leaves things alone when it fails. -/
theorem Steady.atomic {change : Change σ ε α} (h : Steady view change) : Atomic view change :=
  fun state _ _ => h state

/-- What cannot fail leaves things alone when it fails. -/
theorem Total.atomic {change : Change σ ε α} (h : Total change) : Atomic view change := by
  intro state e hfails
  obtain ⟨value, hvalue⟩ := h state
  cases hvalue.symm.trans hfails

/-- Steps that only read may go one after the other. -/
theorem Steady.bind {first : Change σ ε α} {next : α → Change σ ε β}
    (hfirst : Steady view first) (hnext : ∀ value, Steady view (next value)) :
    Steady view (first >>= next) := by
  intro state
  have hseen := hfirst state
  rcases h : first.apply state with ⟨cause | value, reached⟩
  · rw [apply_bind_of_error h]
    rw [h] at hseen
    exact hseen
  · rw [apply_bind_of_ok h, hnext value reached]
    rw [h] at hseen
    exact hseen

/-- So may steps that cannot fail. -/
theorem Total.bind {first : Change σ ε α} {next : α → Change σ ε β}
    (hfirst : Total first) (hnext : ∀ value, Total (next value)) : Total (first >>= next) := by
  intro state
  obtain ⟨value, hvalue⟩ := hfirst state
  rw [apply_bind_of_ok (Prod.ext hvalue rfl)]
  exact hnext value _

/-- Steps that only read may go before a change that leaves things alone when it
fails. -/
theorem Steady.bind_atomic {first : Change σ ε α} {next : α → Change σ ε β}
    (hfirst : Steady view first) (hnext : ∀ value, Atomic view (next value)) :
    Atomic view (first >>= next) := by
  intro state e hfails
  have hseen := hfirst state
  rcases h : first.apply state with ⟨cause | value, reached⟩
  · rw [apply_bind_of_error h]
    rw [h] at hseen
    exact hseen
  · rw [apply_bind_of_ok h] at hfails ⊢
    rw [h] at hseen
    exact (hnext value reached e hfails).trans hseen

/-- Steps that cannot fail may go behind it. -/
theorem Atomic.bind_total {first : Change σ ε α} {next : α → Change σ ε β}
    (hfirst : Atomic view first) (hnext : ∀ value, Total (next value)) :
    Atomic view (first >>= next) := by
  intro state e hfails
  rcases h : first.apply state with ⟨cause | value, reached⟩
  · have hseen := hfirst state cause (congrArg Prod.fst h)
    rw [apply_bind_of_error h]
    rw [h] at hseen
    exact hseen
  · rw [apply_bind_of_ok h] at hfails
    obtain ⟨final, hfinal⟩ := hnext value reached
    cases hfinal.symm.trans hfails

theorem Atomic.map {change : Change σ ε α} (h : Atomic view change) (step : α → β) :
    Atomic view (step <$> change) := by
  intro state e hfails
  rw [apply_map] at hfails ⊢
  exact h state e (Outcome.map_eq_error.mp hfails)

theorem Atomic.mapError {change : Change σ ε α} (h : Atomic view change) (step : ε → δ) :
    Atomic view (change.mapError step) := by
  intro state e hfails
  rw [apply_mapError] at hfails ⊢
  rcases houtcome : (change.apply state).1 with cause | value
  · exact h state cause houtcome
  · rw [houtcome] at hfails
    cases hfails

/-- A change of a part cannot fail if it cannot fail on its own. -/
theorem Total.within {change : Change τ ε α} (h : Total change) (part : σ → τ)
    (place : σ → τ → σ) : Total (change.within part place) :=
  fun state => h (part state)

/-- A change of a part leaves everything alone when it fails, if it does so on its
own and what is put back is what was found. -/
theorem Atomic.within {change : Change τ ε α} (h : Atomic id change) {part : σ → τ}
    {place : σ → τ → σ} (hplace : ∀ state, place state (part state) = state) :
    Atomic view (change.within part place) := by
  intro state e hfails
  have hpart : (change.apply (part state)).2 = part state := h (part state) e hfails
  rw [apply_within, hpart, hplace]

/-- What a change leaves when it fails, and leaves everything alone then. -/
theorem Atomic.apply_of_error {change : Change σ ε α} (h : Atomic id change) {state : σ} {e : ε}
    (hfails : change.attempt state = .error e) : change.apply state = (.error e, state) := by
  have houtcome := attempt_eq_error.mp hfails
  exact Prod.ext houtcome (h state e houtcome)

/-- If what comes of such a change commutes with a function on states, so does the
change. -/
theorem Atomic.apply_comm {change : Change σ ε α} (h : Atomic id change) {step : σ → σ} {state : σ}
    (hcommutes : change.attempt (step state) = Prod.map id step <$> change.attempt state) :
    change.apply (step state) = Prod.map id step (change.apply state) := by
  cases hattempt : change.attempt state with
  | ok outcome =>
    rw [hattempt] at hcommutes
    rw [attempt_eq_ok.mp hcommutes, attempt_eq_ok.mp hattempt]
    rfl
  | error e =>
    rw [hattempt] at hcommutes
    rw [h.apply_of_error hcommutes, h.apply_of_error hattempt]
    rfl

end Change

end CalendarStamp
