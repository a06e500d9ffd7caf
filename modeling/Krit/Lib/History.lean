import Mathlib.Tactic

/-!
# Histories of a machine

A machine answers calls one at a time.  Its history is the list of calls with their
answers; an invariant may speak about the history as well as about the state.
-/

namespace History

variable {σ α ρ : Type} (step : σ → α → ρ × σ)

/-- The state after a sequence of calls. -/
def run (state : σ) (calls : List α) : σ :=
  calls.foldl (fun state call => (step state call).2) state

/-- The calls of a run with their answers. -/
def history (state : σ) : List α → List (α × ρ)
  | [] => []
  | call :: rest => (call, (step state call).1) :: history (step state call).2 rest

@[simp] theorem run_nil (state : σ) : run step state [] = state := rfl

@[simp] theorem run_cons (state : σ) (call : α) (rest : List α) :
    run step state (call :: rest) = run step (step state call).2 rest := rfl

theorem run_append (state : σ) (first second : List α) :
    run step state (first ++ second) = run step (run step state first) second :=
  List.foldl_append

theorem history_append (state : σ) (first second : List α) :
    history step state (first ++ second) =
      history step state first ++ history step (run step state first) second := by
  induction first generalizing state with
  | nil => rfl
  | cons call rest ih =>
    rw [List.cons_append, history, history, run_cons, ih, List.cons_append]

@[simp] theorem length_history (state : σ) (calls : List α) :
    (history step state calls).length = calls.length := by
  induction calls generalizing state with
  | nil => rfl
  | cons call rest ih => rw [history, List.length_cons, List.length_cons, ih]

theorem map_fst_history (state : σ) (calls : List α) :
    (history step state calls).map Prod.fst = calls := by
  induction calls generalizing state with
  | nil => rfl
  | cons call rest ih => rw [history, List.map_cons, ih]

theorem fst_mem_of_mem_history {state : σ} {calls : List α} {event : α × ρ}
    (hevent : event ∈ history step state calls) : event.1 ∈ calls := by
  rw [← map_fst_history step state calls]
  exact List.mem_map_of_mem hevent

/-- The parts of a history are the histories of the parts of the run. -/
theorem history_eq_append {state : σ} {calls : List α} {first second : List (α × ρ)}
    (hsplit : history step state calls = first ++ second) :
    ∃ earlier later, calls = earlier ++ later ∧ first = history step state earlier ∧
      second = history step (run step state earlier) later := by
  refine ⟨calls.take first.length, calls.drop first.length,
    (List.take_append_drop _ _).symm, ?_⟩
  have hlength := congrArg List.length hsplit
  rw [length_history, List.length_append] at hlength
  rw [← List.take_append_drop first.length calls, history_append] at hsplit
  have hparts := List.append_inj hsplit (by rw [length_history, List.length_take]; omega)
  exact ⟨hparts.1.symm, hparts.2.symm⟩

/-- An invariant of the history and the state that every step keeps holds after every
run. -/
theorem invariant {motive : List (α × ρ) → σ → Prop} {start : σ} (hstart : motive [] start)
    (hstep : ∀ past state call, motive past state →
      motive (past ++ [(call, (step state call).1)]) (step state call).2)
    (calls : List α) : motive (history step start calls) (run step start calls) := by
  -- the induction is on the end of the run, where the last step is
  induction calls using List.reverseRecOn with
  | nil => exact hstart
  | append_singleton calls call ih =>
    rw [run_append, history_append]
    exact hstep _ _ call ih

/-! ## What holds of every event after those before it -/

/-- Every event has a property of itself and the events before it. -/
def Throughout {ε : Type} (holds : List ε → ε → Prop) (past : List ε) : Prop :=
  ∀ before event after, past = before ++ event :: after → holds before event

theorem throughout_nil {ε : Type} {holds : List ε → ε → Prop} : Throughout holds [] := by
  intro before event after hsplit
  cases before <;> cases hsplit

theorem Throughout.concat {ε : Type} {holds : List ε → ε → Prop} {past : List ε} {last : ε}
    (hpast : Throughout holds past) (hlast : holds past last) :
    Throughout holds (past ++ [last]) := by
  intro before event after hsplit
  rcases List.eq_nil_or_concat after with hnil | ⟨rest, final, hconcat⟩
  · rw [hnil] at hsplit
    obtain ⟨hsame, hevent⟩ := List.append_inj' hsplit rfl
    rw [List.cons.injEq] at hevent
    rw [← hsame, ← hevent.1]
    exact hlast
  · rw [List.concat_eq_append] at hconcat
    rw [hconcat, ← List.cons_append, ← List.append_assoc] at hsplit
    obtain ⟨hsame, -⟩ := List.append_inj' hsplit rfl
    exact hpast before event rest hsame

/-! ## What has held since an event -/

section Since

variable {ε : Type}

/-- An event has happened that starts something, and all later events keep it. -/
def Since (start kept : ε → Prop) (past : List ε) : Prop :=
  ∃ before event after, past = before ++ event :: after ∧ start event ∧
    ∀ later ∈ after, kept later

variable {start start' kept kept' : ε → Prop} {past : List ε}

theorem not_since_nil : ¬ Since start kept [] := by
  rintro ⟨before, event, after, hsplit, -⟩
  cases before <;> cases hsplit

/-- The last event starts it, or keeps it. -/
theorem since_concat {last : ε} :
    Since start kept (past ++ [last]) ↔ start last ∨ (Since start kept past ∧ kept last) := by
  constructor
  · rintro ⟨before, event, after, hsplit, hstart, hkept⟩
    rcases List.eq_nil_or_concat after with hnil | ⟨rest, final, hconcat⟩
    · rw [hnil] at hsplit
      obtain ⟨-, hlast⟩ := List.append_inj' hsplit rfl
      rw [List.cons.injEq] at hlast
      rw [hlast.1]
      exact Or.inl hstart
    · rw [List.concat_eq_append] at hconcat
      rw [hconcat, ← List.cons_append, ← List.append_assoc] at hsplit
      obtain ⟨hpast, hlast⟩ := List.append_inj' hsplit rfl
      rw [List.cons.injEq] at hlast
      rw [hconcat] at hkept
      refine Or.inr ⟨⟨before, event, rest, hpast, hstart, ?_⟩, ?_⟩
      · intro later hlater
        exact hkept later (List.mem_append_left _ hlater)
      · rw [hlast.1]
        exact hkept final (by simp)
  · rintro (hstart | ⟨⟨before, event, after, hsplit, hstart, hkept⟩, hlast⟩)
    · exact ⟨past, last, [], rfl, hstart, by simp⟩
    · refine ⟨before, event, after ++ [last], ?_, hstart, ?_⟩
      · rw [hsplit, List.append_assoc, List.cons_append]
      · intro later hlater
        rcases List.mem_append.mp hlater with hearly | hfinal
        · exact hkept later hearly
        · rw [List.mem_singleton.mp hfinal]
          exact hlast

/-- More may be kept of the events that have happened. -/
theorem Since.imp (hsince : Since start kept past) (hstart : ∀ event, start event → start' event)
    (hkept : ∀ event ∈ past, kept event → kept' event) : Since start' kept' past := by
  obtain ⟨before, event, after, hsplit, hevent, hafter⟩ := hsince
  refine ⟨before, event, after, hsplit, hstart event hevent, ?_⟩
  intro later hlater
  refine hkept later ?_ (hafter later hlater)
  rw [hsplit]
  exact List.mem_append_right _ (List.mem_cons_of_mem _ hlater)

/-- Nothing is kept since an event that starts it only once and is broken later. -/
theorem not_since_of_broken {before between after : List ε} {event broken : ε}
    (hsplit : past = before ++ event :: between ++ broken :: after)
    (honce : past.Pairwise fun first second => ¬ (start first ∧ start second))
    (hstart : start event) (hbroken : ¬ kept broken) : ¬ Since start kept past := by
  rintro ⟨first, found, last, hfound, hfirst, hkept⟩
  have hshape : before ++ event :: (between ++ broken :: after) = first ++ found :: last := by
    rw [← hfound, hsplit, List.append_assoc, List.cons_append]
  rw [hfound] at honce
  rcases List.append_eq_append_iff.mp hshape with ⟨middle, hone, htwo⟩ | ⟨middle, hone, htwo⟩
  · -- the event found is this one, or comes after it
    cases middle with
    | nil =>
      rw [List.nil_append, List.cons.injEq] at htwo
      refine hbroken (hkept broken ?_)
      rw [← htwo.2]
      simp
    | cons head rest =>
      rw [List.cons_append, List.cons.injEq] at htwo
      have hmem : event ∈ first := by
        rw [hone, htwo.1]
        simp
      exact (List.pairwise_append.mp honce).2.2 event hmem found (by simp) ⟨hstart, hfirst⟩
  · cases middle with
    | nil =>
      rw [List.nil_append, List.cons.injEq] at htwo
      refine hbroken (hkept broken ?_)
      rw [htwo.2]
      simp
    | cons head rest =>
      rw [List.cons_append, List.cons.injEq] at htwo
      have hmem : event ∈ last := by
        rw [htwo.2]
        simp
      exact (List.pairwise_cons.mp (List.pairwise_append.mp honce).2.1).1 event hmem
        ⟨hfirst, hstart⟩

end Since

end History
