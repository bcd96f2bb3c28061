/-!
# Steps that may fail

Reading, running and storing are chains of steps, each of which gives a value
or an error, and the first error ends the chain.  These lemmas say what a chain
of steps comes to, so that statements about one need not open the plumbing.

Main results:

- Theorem `bind_eq_ok`: two steps in a row succeed when the first gives a value
  with which the second succeeds.
- Theorem `map_eq_ok`: a step whose value is changed succeeds when it succeeds.
- Theorem `bind_eq_error`: two steps in a row fail when one of them does.
-/

namespace CalendarStamp.Outcome

variable {ε δ α β : Type}

/-! ## Known steps -/

@[simp] theorem pure_eq (a : α) : (pure a : Except ε α) = .ok a := rfl

@[simp] theorem throw_eq (e : ε) : (throw e : Except ε α) = .error e := rfl

@[simp] theorem ok_bind (a : α) (next : α → Except ε β) : (Except.ok a >>= next) = next a := rfl

@[simp] theorem error_bind (e : ε) (next : α → Except ε β) :
    (Except.error e >>= next) = .error e := rfl

@[simp] theorem map_ok (change : α → β) (a : α) :
    (change <$> (Except.ok a : Except ε α)) = .ok (change a) := rfl

@[simp] theorem map_error (change : α → β) (e : ε) :
    (change <$> (Except.error e : Except ε α)) = .error e := rfl

@[simp] theorem mapError_ok (change : ε → δ) (a : α) :
    (Except.ok a : Except ε α).mapError change = .ok a := rfl

@[simp] theorem mapError_error (change : ε → δ) (e : ε) :
    (Except.error e : Except ε α).mapError change = .error (change e) := rfl

/-! ## Steps that succeed -/

/-- Two steps in a row succeed when the first gives a value with which the
second succeeds. -/
theorem bind_eq_ok {first : Except ε α} {next : α → Except ε β} {b : β} :
    (first >>= next) = .ok b ↔ ∃ a, first = .ok a ∧ next a = .ok b := by
  cases first <;> simp

/-- A step whose value is changed succeeds when it succeeds. -/
theorem map_eq_ok {first : Except ε α} {change : α → β} {b : β} :
    (change <$> first) = .ok b ↔ ∃ a, first = .ok a ∧ change a = b := by
  cases first <;> simp

/-- A step whose error is changed succeeds when it succeeds. -/
@[simp] theorem mapError_eq_ok {first : Except ε α} {change : ε → δ} {a : α} :
    first.mapError change = .ok a ↔ first = .ok a := by
  cases first <;> simp

/-- A step gives a value when it succeeds with it. -/
@[simp] theorem toOption_eq_some {step : Except ε α} {a : α} :
    step.toOption = some a ↔ step = .ok a := by
  cases step <;> simp [Except.toOption]

/-! ## Steps that fail -/

/-- Two steps in a row fail when the first fails, or gives a value with which the
second fails. -/
theorem bind_eq_error {first : Except ε α} {next : α → Except ε β} {e : ε} :
    (first >>= next) = .error e ↔ first = .error e ∨ ∃ a, first = .ok a ∧ next a = .error e := by
  cases first <;> simp

/-- A step whose value is changed fails when it fails. -/
theorem map_eq_error {first : Except ε α} {change : α → β} {e : ε} :
    (change <$> first) = .error e ↔ first = .error e := by
  cases first <;> simp

end CalendarStamp.Outcome
