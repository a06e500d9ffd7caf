import Mathlib.Tactic

/-!
# Checks that succeed

A checker is a chain of computations in `Except`.  These lemmas take an
accepting run apart: every step of an accepting chain accepted.
-/

namespace Result

variable {ε α β : Type}

/-- Fails with `failure` unless the condition holds. -/
def ensure (condition : Bool) (failure : ε) : Except ε Unit :=
  if condition then .ok () else .error failure

@[simp] theorem ensure_eq_ok {condition : Bool} {failure : ε} {value : Unit} :
    ensure condition failure = .ok value ↔ condition = true := by
  cases condition <;> simp [ensure]

theorem ensure_of_true {condition : Bool} (hcondition : condition = true) (failure : ε) :
    ensure condition failure = .ok () := by
  rw [hcondition]
  rfl

/-- The value of an option, or a failure. -/
def ofOption (failure : ε) : Option α → Except ε α
  | some value => .ok value
  | none => .error failure

@[simp] theorem ofOption_eq_ok {failure : ε} {found : Option α} {value : α} :
    ofOption failure found = .ok value ↔ found = some value := by
  cases found <;> simp [ofOption]

@[simp] theorem bind_eq_ok {step : Except ε α} {next : α → Except ε β} {value : β} :
    (step >>= next) = .ok value ↔ ∃ middle, step = .ok middle ∧ next middle = .ok value := by
  cases step with
  | ok middle => simp [bind, Except.bind]
  | error failure => simp [bind, Except.bind]

theorem bind_eq_error {step : Except ε α} {next : α → Except ε β} {failure : ε} :
    (step >>= next) = .error failure ↔
      step = .error failure ∨ ∃ middle, step = .ok middle ∧ next middle = .error failure := by
  cases step with
  | ok middle => simp [bind, Except.bind]
  | error failure => simp [bind, Except.bind]

theorem ensure_eq_error {condition : Bool} {failure other : ε} :
    ensure condition failure = .error other ↔ condition = false ∧ failure = other := by
  cases condition <;> simp [ensure]

@[simp] theorem pure_eq_ok {value other : α} :
    (pure value : Except ε α) = .ok other ↔ value = other := by
  simp [pure, Except.pure]

@[simp] theorem throw_eq_ok {failure : ε} {value : α} :
    (throw failure : Except ε α) = .ok value ↔ False := by
  simp [throw, throwThe, MonadExceptOf.throw]

theorem mapError_eq_ok {γ : Type} {step : Except ε α} {change : ε → γ} {value : α} :
    step.mapError change = .ok value ↔ step = .ok value := by
  cases step with
  | ok middle => simp [Except.mapError]
  | error failure => simp [Except.mapError]

/-- Runs a check on every element, stopping at the first failure. -/
def forEach (check : α → Except ε Unit) : List α → Except ε Unit
  | [] => .ok ()
  | element :: rest => do
      check element
      forEach check rest

@[simp] theorem forEach_eq_ok {check : α → Except ε Unit} {elements : List α} {value : Unit} :
    forEach check elements = .ok value ↔ ∀ element ∈ elements, check element = .ok () := by
  induction elements with
  | nil => simp [forEach]
  | cons element rest ih =>
      simp only [forEach, bind_eq_ok, ih, List.mem_cons, forall_eq_or_imp]
      constructor
      · rintro ⟨_, hcheck, hrest⟩
        exact ⟨hcheck, hrest⟩
      · rintro ⟨hcheck, hrest⟩
        exact ⟨(), hcheck, hrest⟩

/-- An accepting check can be evaluated without comparing failures. -/
theorem eq_ok_of_toBool {check : Except ε Unit} (haccepts : check.toBool = true) :
    check = .ok () := by
  cases check with
  | ok value => rfl
  | error failure => cases haccepts

/-- An accepted result whose first part can be evaluated. -/
theorem exists_of_toOption_fst {result : Except ε (α × β)} {value : α}
    (hread : result.toOption.map Prod.fst = some value) : ∃ rest, result = .ok (value, rest) := by
  cases result with
  | error failure => cases hread
  | ok pair => exact ⟨pair.2, by rw [← Option.some.inj hread]⟩

/-- What an accepted start gives can be evaluated. -/
theorem eq_of_toOption {start : Except ε α} (read : α → β) {value : β}
    (hread : start.toOption.map read = some value) {element : α} (hstart : start = .ok element) :
    read element = value := by
  subst hstart
  exact Option.some.inj hread

/-- A read of an accepted start can be evaluated without comparing failures. -/
theorem eq_ok_of_toOption {γ : Type} {start : Except ε α} (read : α → Except γ β) {value : β}
    (hread : (start.toOption.bind fun element => (read element).toOption) = some value)
    {element : α} (hstart : start = .ok element) : read element = .ok value := by
  subst hstart
  generalize hresult : read element = result
  have hoption : (read element).toOption = some value := hread
  rw [hresult] at hoption
  cases result with
  | error failure => cases hoption
  | ok found =>
    have hfound : some found = some value := hoption
    rw [Option.some.injEq] at hfound
    rw [hfound]

end Result
