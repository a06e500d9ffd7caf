import Mathlib.Tactic

/-!
# Runs of an interpreter

A run of an interpreter threads a state and stops in one of five ways: with a
value, with an early exit that an enclosing construct will catch, with an error
of the interpreted language, with a fault of the interpreter itself, or because
its fuel is spent.  `Run.Ensures` is the partial-correctness predicate used for
safety proofs: an invariant of the state is kept, values, exits and errors
satisfy their postconditions, and no fault is reachable.
-/

namespace Interp

/-- How a run stops. -/
inductive Outcome (ξ ε φ α : Type) where
  | done (value : α)
  | exit (value : ξ)
  | error (failure : ε)
  | fault (reason : φ)
  | exhausted
  deriving DecidableEq, Repr

/-- A computation over the state `σ` with exits `ξ`, errors `ε`, faults `φ`. -/
def Run (σ ξ ε φ α : Type) : Type :=
  σ → Outcome ξ ε φ α × σ

namespace Run

variable {σ ξ ε φ α β γ : Type}

protected def pure (value : α) : Run σ ξ ε φ α :=
  fun state => (.done value, state)

protected def bind (run : Run σ ξ ε φ α) (next : α → Run σ ξ ε φ β) :
    Run σ ξ ε φ β :=
  fun state =>
    match run state with
    | (.done value, state') => next value state'
    | (.exit value, state') => (.exit value, state')
    | (.error failure, state') => (.error failure, state')
    | (.fault reason, state') => (.fault reason, state')
    | (.exhausted, state') => (.exhausted, state')

instance : Monad (Run σ ξ ε φ) where
  pure := Run.pure
  bind := Run.bind

def exit (value : ξ) : Run σ ξ ε φ α :=
  fun state => (.exit value, state)

def fail (failure : ε) : Run σ ξ ε φ α :=
  fun state => (.error failure, state)

def fault (reason : φ) : Run σ ξ ε φ α :=
  fun state => (.fault reason, state)

def exhausted : Run σ ξ ε φ α :=
  fun state => (.exhausted, state)

def modify (update : σ → σ) : Run σ ξ ε φ Unit :=
  fun state => (.done (), update state)

def get : Run σ ξ ε φ σ :=
  fun state => (.done state, state)

/-- The value of an option, or a fault when there is none. -/
def ofOption (reason : φ) : Option α → Run σ ξ ε φ α
  | some value => Run.pure value
  | none => Run.fault reason

/-- The value of a computation that fails without touching the state. -/
def ofExcept : Except ε α → Run σ ξ ε φ α
  | .ok value => Run.pure value
  | .error failure => Run.fail failure

/-- Turns an early exit into the value of the enclosing construct. -/
def catchExit (run : Run σ α ε φ α) : Run σ α ε φ α :=
  fun state =>
    match run state with
    | (.exit value, state') => (.done value, state')
    | result => result

theorem pure_apply (value : α) (state : σ) :
    (pure value : Run σ ξ ε φ α) state = (.done value, state) := rfl

theorem bind_apply (run : Run σ ξ ε φ α) (next : α → Run σ ξ ε φ β) (state : σ) :
    (run >>= next) state =
      match run state with
      | (.done value, state') => next value state'
      | (.exit value, state') => (.exit value, state')
      | (.error failure, state') => (.error failure, state')
      | (.fault reason, state') => (.fault reason, state')
      | (.exhausted, state') => (.exhausted, state') := rfl

@[simp] theorem pure_bind (value : α) (next : α → Run σ ξ ε φ β) :
    (pure value >>= next) = next value := rfl

@[simp] theorem fail_bind (failure : ε) (next : α → Run σ ξ ε φ β) :
    (Run.fail failure >>= next) = Run.fail failure := rfl

@[simp] theorem ofOption_some (reason : φ) (value : α) :
    (Run.ofOption reason (some value) : Run σ ξ ε φ α) = pure value := rfl

@[simp] theorem ofExcept_ok (value : α) :
    (Run.ofExcept (.ok value) : Run σ ξ ε φ α) = pure value := rfl

@[simp] theorem ofExcept_error (failure : ε) :
    (Run.ofExcept (.error failure) : Run σ ξ ε φ α) = Run.fail failure := rfl

theorem bind_assoc (run : Run σ ξ ε φ α) (next : α → Run σ ξ ε φ β)
    (last : β → Run σ ξ ε φ γ) :
    (run >>= next >>= last) = run >>= fun value => next value >>= last := by
  funext state
  simp only [bind_apply]
  rcases run state with ⟨outcome, state'⟩
  cases outcome <;> rfl

theorem bind_pure (run : Run σ ξ ε φ α) : (run >>= pure) = run := by
  funext state
  rw [bind_apply]
  rcases run state with ⟨outcome, state'⟩
  cases outcome <;> rfl

/-- Where a run may stop: the state invariant, and the postconditions of
values, of exits and of errors.  Faults are excluded. -/
structure Post (σ ξ ε : Type) where
  invariant : σ → Prop
  exits : ξ → Prop
  errors : ε → Prop

/-- The outcome and final state satisfy a postcondition. -/
def Post.Holds (post : Post σ ξ ε) (values : α → Prop) :
    Outcome ξ ε φ α × σ → Prop
  | (.done value, state) => values value ∧ post.invariant state
  | (.exit value, state) => post.exits value ∧ post.invariant state
  | (.error failure, state) => post.errors failure ∧ post.invariant state
  | (.fault _, _) => False
  | (.exhausted, state) => post.invariant state

/-- From every state satisfying the invariant the run stops as `post` says,
with a value that satisfies `values`. -/
def Ensures (post : Post σ ξ ε) (values : α → Prop) (run : Run σ ξ ε φ α) : Prop :=
  ∀ state, post.invariant state → post.Holds values (run state)

variable {post : Post σ ξ ε} {values : α → Prop} {results : β → Prop}

theorem ensures_pure {value : α} (hvalue : values value) :
    Ensures post values (pure value : Run σ ξ ε φ α) :=
  fun _ hstate => ⟨hvalue, hstate⟩

theorem ensures_bind {run : Run σ ξ ε φ α} {next : α → Run σ ξ ε φ β}
    (hrun : Ensures post values run)
    (hnext : ∀ value, values value → Ensures post results (next value)) :
    Ensures post results (run >>= next) := by
  intro state hstate
  have hstop := hrun state hstate
  rw [bind_apply]
  rcases hresult : run state with ⟨outcome, state'⟩
  rw [hresult] at hstop
  cases outcome with
  | done value => exact hnext value hstop.1 state' hstop.2
  | exit value => exact hstop
  | error failure => exact hstop
  | fault reason => exact hstop.elim
  | exhausted => exact hstop

theorem Ensures.mono {values' : α → Prop} {run : Run σ ξ ε φ α}
    (hrun : Ensures post values run) (hvalues : ∀ value, values value → values' value) :
    Ensures post values' run := by
  intro state hstate
  have hstop := hrun state hstate
  rcases hresult : run state with ⟨outcome, state'⟩
  rw [hresult] at hstop
  cases outcome with
  | done value => exact ⟨hvalues value hstop.1, hstop.2⟩
  | exit value => exact hstop
  | error failure => exact hstop
  | fault reason => exact hstop.elim
  | exhausted => exact hstop

theorem ensures_exit {value : ξ} (hvalue : post.exits value) :
    Ensures post values (Run.exit value : Run σ ξ ε φ α) :=
  fun _ hstate => ⟨hvalue, hstate⟩

theorem ensures_fail {failure : ε} (hfailure : post.errors failure) :
    Ensures post values (Run.fail failure : Run σ ξ ε φ α) :=
  fun _ hstate => ⟨hfailure, hstate⟩

theorem ensures_exhausted :
    Ensures post values (Run.exhausted : Run σ ξ ε φ α) :=
  fun _ hstate => hstate

theorem ensures_modify {update : σ → σ}
    (hupdate : ∀ state, post.invariant state → post.invariant (update state)) :
    Ensures post (fun _ => True) (Run.modify update : Run σ ξ ε φ Unit) :=
  fun state hstate => ⟨trivial, hupdate state hstate⟩

theorem ensures_get :
    Ensures post post.invariant (Run.get : Run σ ξ ε φ σ) :=
  fun _ hstate => ⟨hstate, hstate⟩

theorem ensures_ofOption {reason : φ} {found : Option α} {value : α}
    (hfound : found = some value) :
    Ensures post (· = value) (Run.ofOption reason found : Run σ ξ ε φ α) := by
  subst hfound
  exact ensures_pure rfl

/-- A caught exit meets the postcondition that exits had inside. -/
theorem ensures_catchExit {outer inner : Post σ α ε} {run : Run σ α ε φ α}
    (hrun : Ensures inner values run)
    (hinvariant : inner.invariant = outer.invariant)
    (hexits : ∀ value, inner.exits value → values value)
    (herrors : ∀ failure, inner.errors failure → outer.errors failure) :
    Ensures outer values run.catchExit := by
  intro state hstate
  have hstop := hrun state (hinvariant ▸ hstate)
  unfold catchExit
  rcases hresult : run state with ⟨outcome, state'⟩
  rw [hresult] at hstop
  cases outcome with
  | done value => exact ⟨hstop.1, hinvariant ▸ hstop.2⟩
  | exit value => exact ⟨hexits value hstop.1, hinvariant ▸ hstop.2⟩
  | error failure => exact ⟨herrors failure hstop.1, hinvariant ▸ hstop.2⟩
  | fault reason => exact hstop.elim
  | exhausted => exact (hinvariant ▸ hstop : outer.invariant state')

end Run

end Interp
