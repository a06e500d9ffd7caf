import Krit.Lib.History
import Mathlib.Tactic.Linarith

/-!
# Counting in windows that restart lazily

A counter admits a bounded number of calls in a window of fixed length.  A window starts
with the first call and restarts with the first call that finds it over, so windows are
not aligned to anything but the calls.  Between two restarts no more calls are admitted
than the capacity, and an interval as long as a window meets two windows at most.
-/

structure Window where
  started : ℕ
  count : ℕ
  deriving DecidableEq, Repr

namespace Window

/-- The instants of a call: when a window is opened for it, and when it is counted. -/
structure Reading where
  opened : ℕ
  now : ℕ

@[ext] structure Outcome where
  accepted : Bool
  restarted : Bool
  deriving DecidableEq, Repr

/-- The window is over. -/
def expired (length : ℕ) (window : Window) (now : ℕ) : Bool := length ≤ now - window.started

def refreshed (length now : ℕ) (window : Window) : Window :=
  if window.expired length now then ⟨now, 0⟩ else window

/-- The window in which a call is counted. -/
def current (length : ℕ) (window : Option Window) (reading : Reading) : Window :=
  (window.getD ⟨reading.opened, 0⟩).refreshed length reading.now

def restarts (length : ℕ) (window : Option Window) (reading : Reading) : Bool :=
  window.all fun open' => open'.expired length reading.now

def step (capacity length : ℕ) (window : Option Window) (reading : Reading) :
    Outcome × Option Window :=
  let counted := current length window reading
  ({ accepted := counted.count < capacity, restarted := restarts length window reading },
    some (if counted.count < capacity then { counted with count := counted.count + 1 }
      else counted))

/-- The calls that were admitted. -/
def admitted (events : List (Reading × Outcome)) : ℕ := events.countP fun event => event.2.accepted

/-- The calls that were admitted in an interval of some length. -/
def admittedIn (start length : ℕ) (events : List (Reading × Outcome)) : ℕ :=
  events.countP fun event =>
    event.2.accepted && start ≤ event.1.now && event.1.now < start + length

/-- The instants of the calls do not decrease. -/
def Ordered (readings : List Reading) : Prop :=
  (∀ reading ∈ readings, reading.opened ≤ reading.now) ∧
    readings.Pairwise fun earlier later => earlier.now ≤ later.opened

section Bounds

variable {capacity length : ℕ}

theorem current_of_restarts_eq_false {window : Option Window} {reading : Reading}
    (hsame : restarts length window reading = false) :
    ∃ open', window = some open' ∧ current length window reading = open' := by
  cases window with
  | none => cases hsame
  | some open' =>
    refine ⟨open', rfl, ?_⟩
    have hlive : open'.expired length reading.now = false := hsame
    unfold current refreshed
    rw [Option.getD_some, if_neg (by rw [hlive]; exact Bool.false_ne_true)]

/-- Without restarts, the calls admitted are added to the count. -/
theorem admitted_of_no_restart {window : Window} (hcount : window.count ≤ capacity)
    {readings : List Reading}
    (hsame : ∀ event ∈ History.history (step capacity length) (some window) readings,
      event.2.restarted = false) :
    window.count + admitted (History.history (step capacity length) (some window) readings) ≤
      capacity := by
  induction readings generalizing window with
  | nil => exact hcount
  | cons reading rest ih =>
    rw [History.history] at hsame ⊢
    have hfirst : restarts length (some window) reading = false := hsame _ List.mem_cons_self
    obtain ⟨open', hopen, hcurrent⟩ := current_of_restarts_eq_false hfirst
    rw [Option.some.injEq] at hopen
    subst hopen
    have hrest : ∀ event ∈ History.history (step capacity length)
        (step capacity length (some window) reading).2 rest, event.2.restarted = false := by
      intro event hevent
      exact hsame event (List.mem_cons_of_mem _ hevent)
    unfold admitted at ih ⊢
    rw [List.countP_cons]
    by_cases hroom : window.count < capacity
    · have hnext : (step capacity length (some window) reading).2 =
          some { window with count := window.count + 1 } := by
        unfold step
        simp only [hcurrent, if_pos hroom]
      rw [hnext] at hrest ⊢
      have hle := @ih { window with count := window.count + 1 } hroom hrest
      simp only [] at hle
      split
      · omega
      · omega
    · have hnext : (step capacity length (some window) reading).2 = some window := by
        unfold step
        simp only [hcurrent, if_neg hroom]
      have hrefused : (step capacity length (some window) reading).1.accepted = false := by
        unfold step
        simp only [hcurrent, decide_eq_false_iff_not]
        exact hroom
      rw [hnext] at hrest ⊢
      have hle := ih hcount hrest
      rw [hrefused]
      simp only [Bool.false_eq_true, if_false]
      omega

variable (length) in
/-- The count of a window never exceeds the capacity. -/
theorem count_step_le {window : Option Window} (hcount : ∀ open', window = some open' →
    open'.count ≤ capacity) (reading : Reading) :
    ∃ next, (step capacity length window reading).2 = some next ∧ next.count ≤ capacity ∧
      ((step capacity length window reading).1.accepted = true → 1 ≤ next.count) := by
  refine ⟨_, rfl, ?_, ?_⟩
  · have hcurrent : (current length window reading).count ≤ capacity := by
      unfold current refreshed
      split
      · exact Nat.zero_le _
      · cases window with
        | none => exact Nat.zero_le _
        | some open' => exact hcount open' rfl
    split
    · assumption
    · exact hcurrent
  · intro haccepted
    have hroom : (current length window reading).count < capacity :=
      decide_eq_true_eq.mp haccepted
    rw [if_pos hroom]
    exact Nat.succ_pos _

variable (capacity length) in
theorem count_run_le (readings : List Reading) :
    ∀ open', History.run (step capacity length) none readings = some open' →
      open'.count ≤ capacity := by
  refine History.invariant (step capacity length)
    (motive := fun (_ : List (Reading × Outcome)) (window : Option Window) =>
      ∀ open', window = some open' → open'.count ≤ capacity) ?_ ?_ readings
  · intro open' hopen
    cases hopen
  · intro _ window reading hcount open' hopen
    obtain ⟨next, hnext, hle, -⟩ := count_step_le length hcount reading
    rw [hnext, Option.some.injEq] at hopen
    rw [← hopen]
    exact hle

/-- From one restart to the next, at most the capacity is admitted. -/
theorem admitted_between_restarts {readings : List Reading}
    {before segment after : List (Reading × Outcome)}
    (hsplit : History.history (step capacity length) none readings = before ++ segment ++ after)
    (hsame : ∀ event ∈ segment.drop 1, event.2.restarted = false) :
    admitted segment ≤ capacity := by
  obtain ⟨first, second, rfl, hfirst, -⟩ := History.history_eq_append _ hsplit
  obtain ⟨earlier, own, rfl, -, hown⟩ := History.history_eq_append _ hfirst.symm
  have hcount := count_run_le capacity length earlier
  rw [hown] at hsame ⊢
  cases own with
  | nil => exact Nat.zero_le _
  | cons reading rest =>
    rw [History.history] at hsame ⊢
    obtain ⟨next, hnext, hle, hone⟩ := count_step_le length hcount reading
    rw [List.drop_one, List.tail_cons, hnext] at hsame
    rw [hnext]
    have hrest := admitted_of_no_restart hle hsame
    unfold admitted at hrest ⊢
    rw [List.countP_cons]
    split
    · rename_i haccepted
      have hpos := hone haccepted
      omega
    · omega

/-! ## Intervals as long as a window -/

/-- What an interval has admitted, by the place of the current window: before the
interval, in it, or after it. -/
structure Within (capacity length start : ℕ) (window : Window) (seen : ℕ) : Prop where
  count_le : window.count ≤ capacity
  before : window.started < start → seen ≤ window.count
  inside : window.started < start + length → seen ≤ capacity + window.count
  seen_le : seen ≤ 2 * capacity

theorem Within.fresh {start seen now : ℕ} (hbefore : now < start → seen = 0)
    (hinside : now < start + length → seen ≤ capacity) (hseen : seen ≤ 2 * capacity) :
    Within capacity length start ⟨now, 0⟩ seen where
  count_le := Nat.zero_le _
  before hnow := (hbefore hnow).le
  inside hnow := hinside hnow
  seen_le := hseen

/-- A window that restarts met the interval, or the interval has admitted nothing. -/
theorem Within.current {start seen : ℕ} {window : Window} {reading : Reading}
    (hwithin : Within capacity length start window seen)
    (hzero : reading.now < start → seen = 0) :
    Within capacity length start (Window.current length (some window) reading) seen := by
  unfold Window.current refreshed
  rw [Option.getD_some]
  split
  · rename_i hexpired
    have hover : length ≤ reading.now - window.started := decide_eq_true_eq.mp hexpired
    refine Within.fresh hzero ?_ hwithin.seen_le
    intro hnow
    by_cases hold : window.started < start
    · exact (hwithin.before hold).trans hwithin.count_le
    · -- a window that starts in the interval is over only after it
      have hempty : length = 0 := by omega
      omega
  · exact hwithin

theorem Within.count {start seen : ℕ} {window : Window} {now : ℕ}
    (hwithin : Within capacity length start window seen) (hstarted : window.started ≤ now)
    (hroom : window.count < capacity) :
    Within capacity length start { window with count := window.count + 1 }
      (seen + if start ≤ now ∧ now < start + length then 1 else 0) := by
  have hbefore := hwithin.before
  have hinside := hwithin.inside
  have hseen := hwithin.seen_le
  split
  · rename_i hnow
    have hmet := hinside (by omega)
    refine ⟨hroom, ?_, ?_, by omega⟩
    · intro hold
      have hle := hbefore hold
      change seen + 1 ≤ window.count + 1
      omega
    · intro _
      change seen + 1 ≤ capacity + (window.count + 1)
      omega
  · refine ⟨hroom, ?_, ?_, hseen⟩
    · intro hold
      exact Nat.le_succ_of_le (hbefore hold)
    · intro hold
      exact Nat.le_succ_of_le (hinside hold)

theorem admittedIn_concat {start : ℕ} (past : List (Reading × Outcome)) (reading : Reading)
    (outcome : Outcome) :
    admittedIn start length (past ++ [(reading, outcome)]) =
      admittedIn start length past + if outcome.accepted = true ∧
        (start ≤ reading.now ∧ reading.now < start + length) then 1 else 0 := by
  unfold admittedIn
  rw [List.countP_append, List.countP_singleton]
  simp only [Bool.and_eq_true, decide_eq_true_eq, and_assoc]

theorem admittedIn_eq_zero {start now : ℕ} {past : List (Reading × Outcome)}
    (hpast : ∀ event ∈ past, event.1.now ≤ now) (hnow : now < start) :
    admittedIn start length past = 0 := by
  unfold admittedIn
  rw [List.countP_eq_zero]
  intro event hevent haccepted
  have hle := hpast event hevent
  rw [Bool.and_eq_true, Bool.and_eq_true, decide_eq_true_eq] at haccepted
  omega

theorem Within.step {start : ℕ} {past : List (Reading × Outcome)} {window : Option Window}
    {reading : Reading} (hopened : reading.opened ≤ reading.now)
    (hpast : ∀ event ∈ past, event.1.now ≤ reading.now)
    (hnone : window = none → past = [])
    (hsome : ∀ open', window = some open' → open'.started ≤ reading.now ∧
      Within capacity length start open' (admittedIn start length past)) :
    ∃ next, (Window.step capacity length window reading).2 = some next ∧
      next.started ≤ reading.now ∧ Within capacity length start next
        (admittedIn start length
          (past ++ [(reading, (Window.step capacity length window reading).1)])) := by
  have hzero : reading.now < start → admittedIn start length past = 0 := admittedIn_eq_zero hpast
  obtain ⟨hstarted, hcurrent⟩ :
      (Window.current length window reading).started ≤ reading.now ∧
        Within capacity length start (Window.current length window reading)
          (admittedIn start length past) := by
    cases window with
    | none =>
      have hempty : admittedIn start length past = 0 := by
        rw [hnone rfl]
        rfl
      rw [hempty]
      have hfresh : ∀ now, Within capacity length start ⟨now, 0⟩ 0 := by
        intro now
        exact Within.fresh (fun _ => rfl) (fun _ => Nat.zero_le _) (Nat.zero_le _)
      unfold Window.current refreshed
      rw [Option.getD_none]
      split
      · exact ⟨le_refl _, hfresh _⟩
      · exact ⟨hopened, hfresh _⟩
    | some open' =>
      obtain ⟨hle, hwithin⟩ := hsome open' rfl
      refine ⟨?_, hwithin.current hzero⟩
      unfold Window.current refreshed
      rw [Option.getD_some]
      split
      · exact le_refl _
      · exact hle
  refine ⟨_, rfl, ?_, ?_⟩
  · split
    · exact hstarted
    · exact hstarted
  · rw [admittedIn_concat]
    by_cases hroom : (Window.current length window reading).count < capacity
    · have haccepted : (Window.step capacity length window reading).1.accepted = true :=
        decide_eq_true_eq.mpr hroom
      rw [if_pos hroom, haccepted]
      simp only [true_and]
      exact hcurrent.count hstarted hroom
    · have hrefused : (Window.step capacity length window reading).1.accepted = false :=
        decide_eq_false_iff_not.mpr hroom
      rw [if_neg hroom, hrefused]
      simp only [Bool.false_eq_true, false_and, if_false, Nat.add_zero]
      exact hcurrent

theorem Ordered.of_concat {readings : List Reading} {reading : Reading}
    (hordered : Ordered (readings ++ [reading])) :
    Ordered readings ∧ reading.opened ≤ reading.now ∧
      ∀ earlier ∈ readings, earlier.now ≤ reading.now := by
  obtain ⟨hopened, hpairs⟩ := hordered
  rw [List.pairwise_append] at hpairs
  have hlast := hopened reading (by simp)
  refine ⟨⟨?_, hpairs.1⟩, hlast, ?_⟩
  · intro earlier hearlier
    exact hopened earlier (List.mem_append_left _ hearlier)
  · intro earlier hearlier
    exact (hpairs.2.2 earlier hearlier reading (by simp)).trans hlast

variable (capacity length) in
/-- An interval as long as a window admits at most twice the capacity. -/
theorem admittedIn_le (start : ℕ) {readings : List Reading} (hordered : Ordered readings) :
    admittedIn start length (History.history (step capacity length) none readings) ≤
      2 * capacity := by
  -- the induction is on the end of the run; the window tells what the interval has admitted
  have hinvariant : ∀ now, (∀ reading ∈ readings, reading.now ≤ now) →
      (History.run (step capacity length) none readings = none →
        History.history (step capacity length) none readings = []) ∧
      ∀ open', History.run (step capacity length) none readings = some open' →
        open'.started ≤ now ∧ Within capacity length start open'
          (admittedIn start length (History.history (step capacity length) none readings)) := by
    induction readings using List.reverseRecOn with
    | nil =>
      intro now _
      refine ⟨fun _ => rfl, ?_⟩
      intro open' hopen
      cases hopen
    | append_singleton readings reading ih =>
      intro now hnow
      obtain ⟨hbefore, hopened, hearlier⟩ := hordered.of_concat
      obtain ⟨hnone, hsome⟩ := ih hbefore reading.now hearlier
      have hpast : ∀ event ∈ History.history (step capacity length) none readings,
          event.1.now ≤ reading.now := by
        intro event hevent
        exact hearlier event.1 (History.fst_mem_of_mem_history _ hevent)
      obtain ⟨next, hnext, hstarted, hwithin⟩ := Within.step hopened hpast hnone hsome
      rw [History.run_append, History.history_append]
      refine ⟨?_, ?_⟩
      · intro hempty
        rw [History.run_cons, History.run_nil, hnext] at hempty
        cases hempty
      · intro open' hopen
        rw [History.run_cons, History.run_nil, hnext, Option.some.injEq] at hopen
        rw [← hopen]
        exact ⟨hstarted.trans (hnow reading (by simp)), hwithin⟩
  cases hrun : History.run (step capacity length) none readings with
  | none =>
    obtain ⟨hnone, -⟩ := hinvariant (readings.map Reading.now).sum
      fun reading hreading => List.single_le_sum (by simp) _ (List.mem_map_of_mem hreading)
    rw [hnone hrun]
    exact Nat.zero_le _
  | some open' =>
    obtain ⟨-, hsome⟩ := hinvariant (readings.map Reading.now).sum
      fun reading hreading => List.single_le_sum (by simp) _ (List.mem_map_of_mem hreading)
    exact (hsome open' hrun).2.seen_le

end Bounds

end Window
