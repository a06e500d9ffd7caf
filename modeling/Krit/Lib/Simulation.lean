import Krit.Lib.Run

/-!
# Simulation between two interpreters

Two runs simulate each other when, from related states, they stop in the same
way with related results and related states.  Either side may be allowed to run
out of fuel first; neither side may fault.
-/

namespace Interp

/-- What relates the states, exits and errors of two interpreters, and which of
them may run out of fuel. -/
structure Simulation (σ τ ξ ζ ε δ : Type) where
  states : σ → τ → Prop
  exits : ξ → ζ → Prop
  errors : ε → δ → Prop
  leftLimit : Prop
  rightLimit : Prop

variable {σ τ ξ ζ ε δ φ ψ α β α' β' : Type}

namespace Simulation

variable (simulation : Simulation σ τ ξ ζ ε δ)

/-- Both sides stopped in the same way. -/
def Related (values : α → β → Prop) : Outcome ξ ε φ α × σ → Outcome ζ δ ψ β × τ → Prop
  | (.done left, state), (.done right, state') =>
      values left right ∧ simulation.states state state'
  | (.exit left, state), (.exit right, state') =>
      simulation.exits left right ∧ simulation.states state state'
  | (.error left, state), (.error right, state') =>
      simulation.errors left right ∧ simulation.states state state'
  | _, _ => False

/-- Both sides stopped in the same way, or one met its limit. -/
def Matches (values : α → β → Prop) (left : Outcome ξ ε φ α × σ)
    (right : Outcome ζ δ ψ β × τ) : Prop :=
  (left.1 = .exhausted ∧ simulation.leftLimit) ∨
    (right.1 = .exhausted ∧ simulation.rightLimit) ∨ simulation.Related values left right

end Simulation

namespace Run

variable {simulation : Simulation σ τ ξ ζ ε δ}

def Simulates (simulation : Simulation σ τ ξ ζ ε δ) (values : α → β → Prop)
    (left : Run σ ξ ε φ α) (right : Run τ ζ δ ψ β) : Prop :=
  ∀ state state', simulation.states state state' →
    simulation.Matches values (left state) (right state')

variable {values : α → β → Prop} {results : α' → β' → Prop}
variable {left : Run σ ξ ε φ α} {right : Run τ ζ δ ψ β}

theorem simulates_pure {value : α} {value' : β} (hvalue : values value value') :
    Simulates simulation values (pure value : Run σ ξ ε φ α) (pure value' : Run τ ζ δ ψ β) :=
  fun _ _ hstates => .inr (.inr ⟨hvalue, hstates⟩)

theorem simulates_exit {value : ξ} {value' : ζ} (hvalue : simulation.exits value value') :
    Simulates simulation values (Run.exit value : Run σ ξ ε φ α)
      (Run.exit value' : Run τ ζ δ ψ β) :=
  fun _ _ hstates => .inr (.inr ⟨hvalue, hstates⟩)

theorem simulates_fail {failure : ε} {failure' : δ}
    (hfailure : simulation.errors failure failure') :
    Simulates simulation values (Run.fail failure : Run σ ξ ε φ α)
      (Run.fail failure' : Run τ ζ δ ψ β) :=
  fun _ _ hstates => .inr (.inr ⟨hfailure, hstates⟩)

theorem simulates_exhausted_left (hlimit : simulation.leftLimit) :
    Simulates simulation values (Run.exhausted : Run σ ξ ε φ α) right :=
  fun _ _ _ => .inl ⟨rfl, hlimit⟩

theorem simulates_exhausted_right (hlimit : simulation.rightLimit) :
    Simulates simulation values left (Run.exhausted : Run τ ζ δ ψ β) :=
  fun _ _ _ => .inr (.inl ⟨rfl, hlimit⟩)

/-- A step of the left side alone, when the right side has nothing to do. -/
theorem simulates_modify_left {update : σ → σ} {value' : β} {unit : Unit → β → Prop}
    (hvalue : unit () value')
    (hupdate : ∀ state state', simulation.states state state' →
      simulation.states (update state) state') :
    Simulates simulation unit (Run.modify update : Run σ ξ ε φ Unit)
      (pure value' : Run τ ζ δ ψ β) :=
  fun state state' hstates => .inr (.inr ⟨hvalue, hupdate state state' hstates⟩)

theorem exhausted_bind {run : Run σ ξ ε φ α} {next : α → Run σ ξ ε φ α'} {state : σ}
    (hrun : (run state).1 = .exhausted) : ((run >>= next) state).1 = .exhausted := by
  rw [bind_apply]
  rcases hresult : run state with ⟨outcome, state'⟩
  rw [hresult] at hrun
  dsimp only at hrun
  subst hrun
  rfl

theorem simulates_bind {next : α → Run σ ξ ε φ α'} {next' : β → Run τ ζ δ ψ β'}
    (hrun : Simulates simulation values left right)
    (hnext : ∀ value value', values value value' →
      Simulates simulation results (next value) (next' value')) :
    Simulates simulation results (left >>= next) (right >>= next') := by
  intro state state' hstates
  rcases hrun state state' hstates with ⟨hleft, hlimit⟩ | ⟨hright, hlimit⟩ | hrelated
  · exact .inl ⟨exhausted_bind hleft, hlimit⟩
  · exact .inr (.inl ⟨exhausted_bind hright, hlimit⟩)
  · rw [bind_apply, bind_apply]
    rcases hl : left state with ⟨outcome, after⟩
    rcases hr : right state' with ⟨outcome', after'⟩
    rw [hl, hr] at hrelated
    -- the outcomes that are not related are excluded by `hrelated`
    cases outcome <;> cases outcome' <;> simp only [Simulation.Related] at hrelated
    · exact hnext _ _ hrelated.1 _ _ hrelated.2
    · exact .inr (.inr hrelated)
    · exact .inr (.inr hrelated)

theorem Simulates.mono {values' : α → β → Prop}
    (hrun : Simulates simulation values left right)
    (hvalues : ∀ value value', values value value' → values' value value') :
    Simulates simulation values' left right := by
  rw [← bind_pure left, ← bind_pure right]
  exact simulates_bind hrun fun value value' hvalue => simulates_pure (hvalues value value' hvalue)

/-- Exits caught on both sides become values. -/
theorem simulates_catchExit {inner outer : Simulation σ τ α β ε δ}
    {left : Run σ α ε φ α} {right : Run τ β δ ψ β}
    (hrun : Simulates inner values left right)
    (hstates : inner.states = outer.states) (herrors : inner.errors = outer.errors)
    (hleft : inner.leftLimit → outer.leftLimit) (hright : inner.rightLimit → outer.rightLimit)
    (hexits : ∀ value value', inner.exits value value' → values value value') :
    Simulates outer values left.catchExit right.catchExit := by
  intro state state' hrelatedStates
  unfold catchExit
  have hmatch := hrun state state' (hstates ▸ hrelatedStates)
  rcases hl : left state with ⟨outcome, after⟩
  rcases hr : right state' with ⟨outcome', after'⟩
  rw [hl, hr] at hmatch
  rcases hmatch with ⟨hexhausted, hlimit⟩ | ⟨hexhausted, hlimit⟩ | hrelated
  · dsimp only at hexhausted
    subst hexhausted
    exact .inl ⟨rfl, hleft hlimit⟩
  · dsimp only at hexhausted
    subst hexhausted
    exact .inr (.inl ⟨rfl, hright hlimit⟩)
  · refine .inr (.inr ?_)
    cases outcome <;> cases outcome' <;> simp only [Simulation.Related] at hrelated ⊢
    · exact ⟨hrelated.1, hstates ▸ hrelated.2⟩
    · exact ⟨hexits _ _ hrelated.1, hstates ▸ hrelated.2⟩
    · exact ⟨herrors ▸ hrelated.1, hstates ▸ hrelated.2⟩

/-- Exits caught on the right alone, when neither side exits. -/
theorem simulates_catchExit_right {inner : Simulation σ τ ξ β ε δ} {right : Run τ β δ ψ β}
    (hrun : Simulates inner values left right)
    (hexits : ∀ value value', ¬ inner.exits value value') :
    Simulates inner values left right.catchExit := by
  intro state state' hstates
  unfold catchExit
  have hmatch := hrun state state' hstates
  rcases hl : left state with ⟨outcome, after⟩
  rcases hr : right state' with ⟨outcome', after'⟩
  rw [hl, hr] at hmatch
  rcases hmatch with hexhausted | ⟨hexhausted, hlimit⟩ | hrelated
  · exact .inl hexhausted
  · dsimp only at hexhausted
    subst hexhausted
    exact .inr (.inl ⟨rfl, hlimit⟩)
  · refine .inr (.inr ?_)
    cases outcome <;> cases outcome' <;> simp only [Simulation.Related] at hrelated ⊢
    · exact hrelated
    · exact absurd hrelated.1 (hexits _ _)
    · exact hrelated

/-- A simulation in which neither side exits holds under any relation on exits. -/
theorem Simulates.of_no_exits {inner outer : Simulation σ τ ξ ζ ε δ}
    (hrun : Simulates inner values left right)
    (hstates : inner.states = outer.states) (herrors : inner.errors = outer.errors)
    (hleft : inner.leftLimit → outer.leftLimit) (hright : inner.rightLimit → outer.rightLimit)
    (hexits : ∀ value value', ¬ inner.exits value value') :
    Simulates outer values left right := by
  intro state state' hrelatedStates
  have hmatch := hrun state state' (hstates ▸ hrelatedStates)
  rcases hl : left state with ⟨outcome, after⟩
  rcases hr : right state' with ⟨outcome', after'⟩
  rw [hl, hr] at hmatch
  rcases hmatch with ⟨hexhausted, hlimit⟩ | ⟨hexhausted, hlimit⟩ | hrelated
  · exact .inl ⟨hexhausted, hleft hlimit⟩
  · exact .inr (.inl ⟨hexhausted, hright hlimit⟩)
  · refine .inr (.inr ?_)
    cases outcome <;> cases outcome' <;> simp only [Simulation.Related] at hrelated ⊢
    · exact ⟨hrelated.1, hstates ▸ hrelated.2⟩
    · exact absurd hrelated.1 (hexits _ _)
    · exact ⟨herrors ▸ hrelated.1, hstates ▸ hrelated.2⟩

end Run

end Interp
