import Mathlib.Data.Set.Card
import Krit.ScheduleOccurrences

/-!
# What a tick materializes

The occurrences of a schedule are the instants `start + k * interval`, and those that
are due at a tick lie after the cursor and not after the instant of the tick.  The code
turns the cursor into an index by dividing towards zero, which agrees with the due
occurrences when the cursor is not before the start, and in one interval before it.
-/

namespace Krit.Durable

open Machine Std

/-! ## The occurrences that are due -/

/-- The occurrences after the cursor, up to an instant. -/
def dueInstants (start interval cursor now : ℤ) : Set ℤ :=
  {due | ∃ k : ℕ, due = start + k * interval ∧ cursor < due ∧ due ≤ now}

/-- The index of the first occurrence that is due. -/
def firstDue (start interval cursor : ℤ) : ℤ := max 0 ((cursor - start) / interval + 1)

section Instants

variable {start interval cursor now : ℤ}

theorem mem_dueInstants_iff (hinterval : 0 < interval) {due : ℤ} :
    due ∈ dueInstants start interval cursor now ↔
      ∃ index, firstDue start interval cursor ≤ index ∧ index ≤ (now - start) / interval ∧
        due = start + index * interval := by
  have hafter : ∀ index : ℤ, (cursor - start) / interval + 1 ≤ index ↔
      cursor < start + index * interval := by
    intro index
    rw [Int.add_one_le_iff, Int.ediv_lt_iff_lt_mul hinterval]
    omega
  have hbefore : ∀ index : ℤ, index ≤ (now - start) / interval ↔
      start + index * interval ≤ now := by
    intro index
    rw [Int.le_ediv_iff_mul_le hinterval]
    omega
  constructor
  · rintro ⟨k, hdue, hlow, hhigh⟩
    refine ⟨k, ?_, ?_, hdue⟩
    · refine max_le (by omega) ?_
      rw [hafter, ← hdue]
      exact hlow
    · rw [hbefore, ← hdue]
      exact hhigh
  · rintro ⟨index, hfirst, hlast, hdue⟩
    have hnonneg : 0 ≤ index := (le_max_left _ _).trans hfirst
    have hlow : (cursor - start) / interval + 1 ≤ index := (le_max_right _ _).trans hfirst
    refine ⟨index.toNat, ?_, ?_, ?_⟩
    · rw [Int.toNat_of_nonneg hnonneg]
      exact hdue
    · rw [hdue]
      exact (hafter index).mp hlow
    · rw [hdue]
      exact (hbefore index).mp hlast

theorem mem_indexRange_iff {first last index : ℤ} :
    index ∈ Store.indexRange first last ↔ first ≤ index ∧ index ≤ last := by
  constructor
  · exact mem_indexRange
  · rintro ⟨hfirst, hlast⟩
    unfold Store.indexRange
    refine List.mem_map.mpr ⟨(index - first).toNat, ?_, by omega⟩
    rw [List.mem_range]
    omega

theorem indexRange_nodup (first last : ℤ) : (Store.indexRange first last).Nodup := by
  unfold Store.indexRange
  refine List.nodup_range.map ?_
  intro left right heq
  simpa using heq

theorem length_indexRange (first last : ℤ) :
    (Store.indexRange first last).length = (last - first + 1).toNat := by
  unfold Store.indexRange
  rw [List.length_map, List.length_range]

theorem instant_injective (hinterval : 0 < interval) :
    Function.Injective fun index : ℤ => start + index * interval := by
  intro left right heq
  have hproduct : left * interval = right * interval := by
    simp only at heq
    omega
  exact Int.eq_of_mul_eq_mul_right hinterval.ne' hproduct

/-- The occurrences of a range of indices. -/
def instants (start interval first last : ℤ) : List ℤ :=
  (Store.indexRange first last).map fun index => start + index * interval

theorem mem_instants_iff {first last due : ℤ} :
    due ∈ instants start interval first last ↔
      ∃ index, first ≤ index ∧ index ≤ last ∧ due = start + index * interval := by
  unfold instants
  rw [List.mem_map]
  constructor
  · rintro ⟨index, hindex, heq⟩
    rw [mem_indexRange_iff] at hindex
    exact ⟨index, hindex.1, hindex.2, heq.symm⟩
  · rintro ⟨index, hfirst, hlast, heq⟩
    exact ⟨index, mem_indexRange_iff.mpr ⟨hfirst, hlast⟩, heq.symm⟩

theorem instants_nodup (hinterval : 0 < interval) (first last : ℤ) :
    (instants start interval first last).Nodup :=
  (indexRange_nodup first last).map (instant_injective hinterval)

theorem length_instants (first last : ℤ) :
    (instants start interval first last).length = (last - first + 1).toNat := by
  unfold instants
  rw [List.length_map, length_indexRange]

/-- The number of occurrences that are due. -/
theorem ncard_dueInstants (hinterval : 0 < interval) :
    (dueInstants start interval cursor now).ncard =
      ((now - start) / interval - firstDue start interval cursor + 1).toNat := by
  have hset : dueInstants start interval cursor now =
      ((instants start interval (firstDue start interval cursor)
        ((now - start) / interval)).toFinset : Set ℤ) := by
    ext due
    rw [mem_dueInstants_iff hinterval, List.coe_toFinset, Set.mem_ofPred_eq, mem_instants_iff]
  rw [hset, Set.ncard_coe_finset, List.toFinset_card_of_nodup (instants_nodup hinterval _ _),
    length_instants]

end Instants

/-! ## Valid schedules -/

/-- What validation ensures of a schedule policy. -/
structure SchedulePolicy.Valid (policy : SchedulePolicy) : Prop where
  interval : 1000 ≤ policy.interval.asMillis ∧ policy.interval.asMillis ≤ 31536000000
  start : 0 ≤ policy.startMillis
  catchUp : 1 ≤ policy.maxCatchUp
  retained : policy.maxRetainedFires ≤ Durable.maxRetainedFires

theorem SchedulePolicy.valid_of_validate {policy : SchedulePolicy}
    (hvalid : policy.validate = .ok ()) : policy.Valid := by
  unfold SchedulePolicy.validate within validMillis at hvalid
  simp only [Result.ensure_eq_ok, Bool.and_eq_true, decide_eq_true_eq] at hvalid
  obtain ⟨⟨⟨⟨⟨⟨⟨⟨⟨⟨hshort, ⟨-, hlong⟩, -⟩, hstart⟩, hcatchUp⟩, -⟩, -⟩, -⟩, -⟩, -⟩, -⟩, hretained⟩ :=
    hvalid
  have hlow : 1000000000 ≤ policy.interval.nanos := hshort
  have hhigh : policy.interval.nanos ≤ 31536000 * 1000000000 := hlong
  refine ⟨?_, hstart, hcatchUp.1, hretained.2⟩
  unfold Duration.asMillis
  omega

/-! ## A tick that materializes what is due -/

/-- The fire of an occurrence, as a tick inserts it. -/
def pendingFire (due nowMillis : ℤ) : FireRow :=
  { status := .pending
    attempts := 0
    visibleAt := due
    leaseUntil := none
    owner := none
    updatedAt := nowMillis }

/-- A tick inserts pending fires for exactly the latest of the instants that are due, up
to the catch-up bound, and reports how many of them it left out. -/
structure ExactTick (due : Set ℤ) (schedule : String) (maxCatchUp : ℕ) (nowMillis : ℤ)
    (store next : Store) (report : ScheduleCatchUp) (inserted : List ℤ) : Prop where
  nodup : inserted.Nodup
  instants : ∀ instant ∈ inserted, instant ∈ due
  latest : ∀ instant ∈ inserted, ∀ other ∈ due, other ∉ inserted → other < instant
  count : inserted.length = min maxCatchUp due.ncard
  materialized : report.materialized = inserted.length
  skipped : report.skipped = due.ncard - inserted.length
  pending : ∀ instant ∈ inserted, store.scheduleFires.find (schedule, instant) = none ∧
    next.scheduleFires.find (schedule, instant) = some (pendingFire instant nowMillis)
  others : ∀ key row, next.scheduleFires.find key = some row →
    (∃ instant ∈ inserted, key = (schedule, instant)) ∨ store.scheduleFires.find key = some row

namespace Store

/-- No fire of a schedule lies after its cursor. -/
def FiresBehindCursors (store : Store) : Prop :=
  ∀ schedule due row, store.scheduleFires.find (schedule, due) = some row →
    ∃ cursor, store.scheduleCursors.find schedule = some cursor ∧ due ≤ cursor.lastDueAt

section Ticks

variable {store : Store} {schedule : String} {policy : SchedulePolicy} {nowMillis : ℤ}

/-- Occurrences that can be represented and have no fire are all inserted. -/
theorem insertFires_fresh {interval : ℤ} (hinterval : 0 < interval) {indices : List ℤ}
    (hindices : indices.Nodup)
    (hinstants : ∀ index ∈ indices, occurrenceInstant policy.startMillis index interval =
      .ok (policy.startMillis + index * interval))
    (habsent : ∀ index ∈ indices,
      store.scheduleFires.find (schedule, policy.startMillis + index * interval) = none)
    (inserted : List ℤ) :
    ∃ scheduleFires,
      indices.foldlM (insertFire schedule policy interval nowMillis) (inserted, store) =
        .ok (inserted ++ indices.map fun index => policy.startMillis + index * interval,
          { store with scheduleFires }) ∧
      (∀ index ∈ indices,
        scheduleFires.find (schedule, policy.startMillis + index * interval) =
          some (pendingFire (policy.startMillis + index * interval) nowMillis)) ∧
      ∀ key, (∀ index ∈ indices, key ≠ (schedule, policy.startMillis + index * interval)) →
        scheduleFires.find key = store.scheduleFires.find key := by
  induction indices generalizing store inserted with
  | nil =>
    refine ⟨store.scheduleFires, by simp [pure, Except.pure], by simp, ?_⟩
    intro key _
    rfl
  | cons index rest ih =>
    obtain ⟨hhead, hrest⟩ := List.nodup_cons.mp hindices
    have hnone := habsent index List.mem_cons_self
    have hother : ∀ other ∈ rest,
        (schedule, policy.startMillis + index * interval) ≠
          (schedule, policy.startMillis + other * interval) := by
      intro other hmem heq
      have hsame := instant_injective hinterval (Prod.mk.inj heq).2
      rw [hsame] at hhead
      exact hhead hmem
    set first : Store :=
      { store with
        scheduleFires := store.scheduleFires.insert
          (schedule, policy.startMillis + index * interval)
          (pendingFire (policy.startMillis + index * interval) nowMillis) } with hfirst
    have habsent' : ∀ other ∈ rest, first.scheduleFires.find
        (schedule, policy.startMillis + other * interval) = none := by
      intro other hmem
      rw [hfirst]
      simp only []
      rw [Table.find_insert_of_ne (hother other hmem)]
      exact habsent other (List.mem_cons_of_mem _ hmem)
    obtain ⟨fires, hfold, hpending, hkept⟩ := @ih first hrest
      (fun other hmem => hinstants other (List.mem_cons_of_mem _ hmem)) habsent'
      (inserted ++ [policy.startMillis + index * interval])
    refine ⟨fires, ?_, ?_, ?_⟩
    · rw [List.foldlM_cons, Result.bind_eq_ok]
      refine ⟨(inserted ++ [policy.startMillis + index * interval], first), ?_, ?_⟩
      · unfold insertFire
        rw [hinstants index List.mem_cons_self]
        simp [hnone, hfirst, pendingFire, bind, Except.bind, pure, Except.pure]
      · rw [hfold, List.map_cons, List.append_assoc, List.singleton_append]
    · intro other hmem
      rcases List.mem_cons.mp hmem with heq | hlater
      · subst heq
        rw [hkept _ hother, hfirst]
        exact Table.find_insert_self hnone _
      · exact hpending other hlater
    · intro key hkey
      rw [hkept key fun other hmem => hkey other (List.mem_cons_of_mem _ hmem), hfirst]
      exact Table.find_insert_of_ne (Ne.symm (hkey index List.mem_cons_self)) _ _

theorem cleanupScheduleFires_total (hvalid : policy.Valid)
    (hinstant : preflightInstant nowMillis policy.retention = .ok ()) (store : Store)
    (schedule : String) :
    ∃ scheduleFires, store.cleanupScheduleFires schedule policy nowMillis =
        .ok { store with scheduleFires } ∧
      ∀ key row, scheduleFires.find key = some row → store.scheduleFires.find key = some row := by
  unfold preflightInstant at hinstant
  simp only [Result.bind_eq_ok, Result.ofOption_eq_ok] at hinstant
  obtain ⟨_, -, millis, hmillis, horizon, hhorizon, -⟩ := hinstant
  have hlimit : i64TryFrom policy.maxRetainedFires = some (policy.maxRetainedFires : ℤ) := by
    have hbound := hvalid.retained
    unfold Durable.maxRetainedFires at hbound
    exact i64TryFrom_of_bounds (by unfold i64Min; omega) (by unfold i64Max; omega)
  unfold cleanupScheduleFires
  simp only [hmillis, hhorizon, hlimit, Result.ofOption, bind, Except.bind]
  refine ⟨_, rfl, ?_⟩
  intro key row hfind
  rw [Table.find_delete, Option.filter_eq_some_iff, Table.find_delete,
    Option.filter_eq_some_iff] at hfind
  exact hfind.1.1

theorem occurrenceInstant_of_bounds {startMillis index interval : ℤ}
    (hlow : i64Min ≤ index * interval) (hhigh : index * interval ≤ i64Max)
    (hdueLow : i64Min ≤ startMillis + index * interval)
    (hdueHigh : startMillis + index * interval ≤ i64Max) :
    occurrenceInstant startMillis index interval = .ok (startMillis + index * interval) := by
  unfold occurrenceInstant
  rw [i64TryFrom_of_bounds hlow hhigh, Option.bind_some, i64TryFrom_of_bounds hdueLow hdueHigh]
  rfl

/-- An instant that passes validation is one that can be represented. -/
theorem validateInstant_spec (hvalid : policy.validateInstant nowMillis = .ok ()) :
    policy.Valid ∧ nowMillis ≤ i64Max ∧ preflightInstant nowMillis policy.retention = .ok () := by
  unfold SchedulePolicy.validateInstant at hvalid
  rw [Result.bind_eq_ok] at hvalid
  obtain ⟨_, hpolicy, hinstants⟩ := hvalid
  unfold preflightInstants at hinstants
  rw [Result.forEach_eq_ok] at hinstants
  have hretention := hinstants policy.retention (by simp)
  refine ⟨SchedulePolicy.valid_of_validate hpolicy, ?_, hretention⟩
  unfold preflightInstant checkedDeadline at hretention
  simp only [Result.bind_eq_ok, Result.ofOption_eq_ok] at hretention
  obtain ⟨_, ⟨millis, hmillis, hdeadline⟩, -⟩ := hretention
  have hbound := (i64TryFrom_bounds hdeadline).2
  rw [i64TryFrom_eq_some hmillis] at hbound
  omega

theorem SchedulePolicy.intervalMillis_of_valid (hvalid : policy.Valid) :
    policy.intervalMillis = some (policy.interval.asMillis : ℤ) := by
  have hinterval := hvalid.interval
  unfold SchedulePolicy.intervalMillis
  rw [i64TryFrom_of_bounds (by unfold i64Min; omega) (by unfold i64Max; omega),
    Option.filter_some, if_pos]
  rw [decide_eq_true_eq]
  omega

theorem occurrenceBounds_of_valid (hvalid : policy.Valid) (hstart : policy.startMillis ≤ nowMillis)
    (hnow : nowMillis ≤ i64Max) :
    occurrenceBounds policy policy.interval.asMillis nowMillis = .ok (some
      { currentIndex := (nowMillis - policy.startMillis) / policy.interval.asMillis
        cursorDue := policy.startMillis +
          (nowMillis - policy.startMillis) / policy.interval.asMillis *
            policy.interval.asMillis }) := by
  have hpositive := hvalid.start
  have hlow : i64Min ≤ 0 := by decide
  have hquotient : 0 ≤ (nowMillis - policy.startMillis) / (policy.interval.asMillis : ℤ) :=
    Int.ediv_nonneg (by omega) (by omega)
  have hproduct : 0 ≤ (nowMillis - policy.startMillis) / (policy.interval.asMillis : ℤ) *
      policy.interval.asMillis := Int.mul_nonneg hquotient (by omega)
  have hbelow := Int.ediv_mul_le (nowMillis - policy.startMillis)
    (b := (policy.interval.asMillis : ℤ)) (by have hinterval := hvalid.interval; omega)
  unfold occurrenceBounds
  rw [if_neg (by omega), i64TryFrom_of_bounds (by omega) (by omega)]
  simp only [Result.ofOption, bind, Except.bind]
  rw [Int.tdiv_eq_ediv_of_nonneg (by omega),
    occurrenceInstant_of_bounds (by omega) (by omega) (by omega) (by omega)]
  rfl

/-- The index that the code takes for the first occurrence after the cursor. -/
def firstAfter (policy : SchedulePolicy) (cursor : CursorRow) : ℤ :=
  (cursor.lastDueAt - policy.startMillis).tdiv policy.interval.asMillis + 1

/-- The index of the current occurrence. -/
def currentAt (policy : SchedulePolicy) (nowMillis : ℤ) : ℤ :=
  (nowMillis - policy.startMillis) / policy.interval.asMillis

theorem firstIndex_of_bounds (hvalid : policy.Valid) {cursor : CursorRow}
    (hlow : i64Min ≤ cursor.lastDueAt - policy.startMillis) (hhigh : cursor.lastDueAt ≤ i64Max)
    (current : ℤ) :
    firstIndex policy policy.interval.asMillis current (some cursor) =
      .ok (firstAfter policy cursor) := by
  have hstart := hvalid.start
  have hinterval := hvalid.interval
  have hsize := Int.natAbs_tdiv (cursor.lastDueAt - policy.startMillis)
    (policy.interval.asMillis : ℤ)
  -- An interval is longer than one, so the quotient leaves room for one more.
  have hquotient : ((cursor.lastDueAt - policy.startMillis).tdiv
      policy.interval.asMillis).natAbs ≤
        (cursor.lastDueAt - policy.startMillis).natAbs / 1000 := by
    rw [hsize]
    exact Nat.div_le_div_left hinterval.1 (by omega)
  unfold i64Min at hlow
  unfold i64Max at hhigh
  simp only [firstIndex, Result.bind_eq_ok, Result.ofOption_eq_ok]
  refine ⟨cursor.lastDueAt - policy.startMillis, i64TryFrom_of_bounds ?_ ?_,
    i64TryFrom_of_bounds ?_ ?_⟩
  · unfold i64Min
    omega
  · unfold i64Max
    omega
  · unfold i64Min
    omega
  · unfold i64Max
    omega

theorem lastDueAt_lt_firstAfter (hvalid : policy.Valid) (cursor : CursorRow) :
    cursor.lastDueAt <
      policy.startMillis + firstAfter policy cursor * policy.interval.asMillis := by
  have hpositive : (0 : ℤ) < policy.interval.asMillis := by
    have hinterval := hvalid.interval
    omega
  have hbelow := Int.lt_tdiv_add_one_mul_self (cursor.lastDueAt - policy.startMillis) hpositive
  unfold firstAfter
  omega

/-- The occurrences from the first after the cursor to the current one can be
represented. -/
theorem occurrenceInstant_of_range (hvalid : policy.Valid) (hnow : nowMillis ≤ i64Max)
    {cursor : CursorRow}
    (hlow : i64Min ≤ cursor.lastDueAt) (hoffset : i64Min ≤ cursor.lastDueAt - policy.startMillis)
    {index : ℤ} (hfirst : firstAfter policy cursor ≤ index)
    (hlast : index ≤ currentAt policy nowMillis) :
    occurrenceInstant policy.startMillis index policy.interval.asMillis =
      .ok (policy.startMillis + index * policy.interval.asMillis) := by
  have hinterval := hvalid.interval
  have hpositive : (0 : ℤ) < policy.interval.asMillis := by omega
  have hafter := lastDueAt_lt_firstAfter hvalid cursor
  have hlower : firstAfter policy cursor * policy.interval.asMillis ≤
      index * policy.interval.asMillis := Int.mul_le_mul_of_nonneg_right hfirst hpositive.le
  have hupper : index * policy.interval.asMillis ≤
      currentAt policy nowMillis * policy.interval.asMillis :=
    Int.mul_le_mul_of_nonneg_right hlast hpositive.le
  have hbelow := Int.ediv_mul_le (nowMillis - policy.startMillis) hpositive.ne'
  have hzero := hvalid.start
  unfold currentAt at hupper
  exact occurrenceInstant_of_bounds (by omega) (by omega) (by omega) (by omega)

/-- The window of the last occurrences, and the number of those before it. -/
theorem catchUp_window (first last : ℤ) (maxCatchUp : ℕ) :
    (if last - first + 1 > (maxCatchUp : ℤ) then
        (last - maxCatchUp + 1, last - first + 1 - maxCatchUp)
      else (first, 0)) =
      (max first (last - maxCatchUp + 1), max 0 (last - first + 1 - maxCatchUp)) := by
  split
  · rw [max_eq_right (by omega), max_eq_right (by omega)]
  · rw [max_eq_left (by omega), max_eq_left (by omega)]

/-- What a tick does to a schedule with a cursor: it inserts the last occurrences of the
range that the code computes, and reports how many it left out of that range. -/
theorem materializeSchedule_range (hvalid : policy.validateInstant nowMillis = .ok ())
    (hname : validateIdentity schedule maxResourceNameBytes = .ok ())
    (hstart : policy.startMillis ≤ nowMillis) {cursor : CursorRow}
    (hcursor : store.scheduleCursors.find schedule = some cursor)
    (hlow : i64Min ≤ cursor.lastDueAt) (hhigh : cursor.lastDueAt ≤ i64Max)
    (hoffset : i64Min ≤ cursor.lastDueAt - policy.startMillis)
    (hbehind : store.FiresBehindCursors) :
    ∃ report inserted next,
      store.materializeSchedule schedule policy nowMillis = .ok ((report, inserted), next) ∧
      inserted = instants policy.startMillis policy.interval.asMillis
        (max (firstAfter policy cursor) (currentAt policy nowMillis - policy.maxCatchUp + 1))
        (currentAt policy nowMillis) ∧
      report.materialized = inserted.length ∧
      report.skipped = (currentAt policy nowMillis - firstAfter policy cursor + 1 -
        policy.maxCatchUp).toNat ∧
      (∀ instant ∈ inserted, store.scheduleFires.find (schedule, instant) = none ∧
        next.scheduleFires.find (schedule, instant) = some (pendingFire instant nowMillis)) ∧
      ∀ key row, next.scheduleFires.find key = some row →
        (∃ instant ∈ inserted, key = (schedule, instant)) ∨
          store.scheduleFires.find key = some row := by
  obtain ⟨hpolicy, hnow, hretention⟩ := validateInstant_spec hvalid
  have hinterval : (0 : ℤ) < policy.interval.asMillis := by
    have hbound := hpolicy.interval
    omega
  obtain ⟨cleanedFires, hcleanup, hcleaned⟩ :=
    cleanupScheduleFires_total hpolicy hretention store schedule
  have hfirst := firstIndex_of_bounds hpolicy hoffset hhigh (currentAt policy nowMillis)
  have hcatchUp := hpolicy.catchUp
  -- No fire lies after the cursor, so the range has none.
  have habsent : ∀ index, firstAfter policy cursor ≤ index → store.scheduleFires.find
      (schedule, policy.startMillis + index * policy.interval.asMillis) = none := by
    intro index hindex
    rw [Option.eq_none_iff_forall_not_mem]
    intro row hfind
    obtain ⟨found, hfound, hle⟩ := hbehind _ _ row hfind
    rw [hcursor, Option.some.injEq] at hfound
    rw [← hfound] at hle
    have hafter := lastDueAt_lt_firstAfter hpolicy cursor
    have hlower : firstAfter policy cursor * policy.interval.asMillis ≤
        index * policy.interval.asMillis := Int.mul_le_mul_of_nonneg_right hindex hinterval.le
    omega
  unfold materializeSchedule
  rw [hvalid, hname, SchedulePolicy.intervalMillis_of_valid hpolicy]
  simp only [Result.ofOption, bind, Except.bind, occurrenceBounds_of_valid hpolicy hstart hnow,
    hcleanup, if_neg (Int.not_lt.mpr hstart), hcursor]
  have hcurrent : (nowMillis - policy.startMillis) / (policy.interval.asMillis : ℤ) =
      currentAt policy nowMillis := rfl
  rw [hcurrent, hfirst]
  simp only []
  generalize hlast : currentAt policy nowMillis = last at *
  generalize hbegin : firstAfter policy cursor = first at *
  by_cases hpast : first > last
  · -- Nothing is left after the cursor: both the window and the range are empty.
    rw [if_pos hpast]
    have hempty : instants policy.startMillis policy.interval.asMillis
        (max first (last - policy.maxCatchUp + 1)) last = [] := by
      rw [← List.length_eq_zero_iff, length_instants]
      omega
    rw [hempty]
    refine ⟨_, _, _, rfl, rfl, rfl, ?_, by simp, ?_⟩
    · simp only []
      omega
    · intro key row hfind
      exact Or.inr (hcleaned key row hfind)
  · rw [if_neg hpast, catchUp_window first last policy.maxCatchUp]
    have hrange : ∀ index ∈ indexRange (max first (last - policy.maxCatchUp + 1)) last,
        first ≤ index ∧ index ≤ last := by
      intro index hindex
      obtain ⟨hlower, hupper⟩ := mem_indexRange hindex
      exact ⟨(le_max_left _ _).trans hlower, hupper⟩
    obtain ⟨fires, hfold, hpending, hkept⟩ := @insertFires_fresh
      { store with scheduleFires := cleanedFires } schedule _ nowMillis _ hinterval _
      (indexRange_nodup (max first (last - policy.maxCatchUp + 1)) last)
      (by
        intro index hindex
        obtain ⟨hlower, hupper⟩ := hrange index hindex
        rw [← hbegin] at hlower
        rw [← hlast] at hupper
        exact occurrenceInstant_of_range hpolicy hnow hlow hoffset hlower hupper)
      (by
        intro index hindex
        rw [Option.eq_none_iff_forall_not_mem]
        intro row hfind
        have hstored := hcleaned _ row hfind
        rw [habsent index (hrange index hindex).1] at hstored
        cases hstored) []
    simp only [hfold, List.nil_append]
    refine ⟨_, _, _, rfl, rfl, rfl, ?_, ?_, ?_⟩
    · simp only []
      omega
    · intro instant hinstant
      obtain ⟨index, hindex, heq⟩ := List.mem_map.mp hinstant
      rw [← heq]
      exact ⟨habsent index (hrange index hindex).1, hpending index hindex⟩
    · intro key row hfind
      by_cases hnew : ∃ index ∈ indexRange (max first (last - policy.maxCatchUp + 1)) last,
          key = (schedule, policy.startMillis + index * policy.interval.asMillis)
      · obtain ⟨index, hindex, hkey⟩ := hnew
        exact Or.inl ⟨_, List.mem_map.mpr ⟨index, hindex, rfl⟩, hkey⟩
      · push Not at hnew
        simp only [] at hfind
        rw [hkept key hnew] at hfind
        exact Or.inr (hcleaned key row hfind)

/-- A cursor that is too far before the start to be subtracted is refused. -/
theorem materializeSchedule_far {cursor : CursorRow}
    (hstart : policy.startMillis ≤ nowMillis)
    (hcursor : store.scheduleCursors.find schedule = some cursor)
    (hfar : cursor.lastDueAt - policy.startMillis < i64Min)
    (result : (ScheduleCatchUp × List ℤ) × Store) :
    store.materializeSchedule schedule policy nowMillis ≠ .ok result := by
  intro htick
  unfold materializeSchedule at htick
  simp only [Result.bind_eq_ok, Result.ofOption_eq_ok] at htick
  obtain ⟨_, -, _, -, interval, -, horizon, -, cleaned, hcleanup, htick⟩ := htick
  rw [if_neg (Int.not_lt.mpr hstart)] at htick
  simp only [Result.bind_eq_ok, Result.ofOption_eq_ok] at htick
  obtain ⟨bounds, -, first, hfirst, -⟩ := htick
  obtain ⟨fires, hcleaned, -⟩ := cleanupScheduleFires_eq_ok hcleanup
  rw [hcleaned] at hfirst
  simp only [hcursor, firstIndex, Result.bind_eq_ok, Result.ofOption_eq_ok] at hfirst
  obtain ⟨elapsed, helapsed, -⟩ := hfirst
  have hbound := (i64TryFrom_bounds helapsed).1
  omega

end Ticks

end Store

/-! ## When a tick is exact -/

/-- The cursor is not before the start, or it is in the second interval before it. -/
def CursorInRange (policy : SchedulePolicy) (cursor : CursorRow) : Prop :=
  policy.startMillis ≤ cursor.lastDueAt ∨
    (policy.startMillis - 2 * policy.interval.asMillis < cursor.lastDueAt ∧
      cursor.lastDueAt ≤ policy.startMillis - policy.interval.asMillis)

section Exact

variable {store next : Store} {schedule : String} {policy : SchedulePolicy} {nowMillis : ℤ}
  {cursor : CursorRow} {report : ScheduleCatchUp} {inserted : List ℤ}

/-- Before the start, division towards zero counts the intervals up to the start. -/
theorem firstAfter_of_lt (hbefore : cursor.lastDueAt < policy.startMillis) :
    Store.firstAfter policy cursor =
      1 - (policy.startMillis - cursor.lastDueAt) / policy.interval.asMillis := by
  have hneg : cursor.lastDueAt - policy.startMillis =
      -(policy.startMillis - cursor.lastDueAt) := by omega
  unfold Store.firstAfter
  rw [hneg, Int.neg_tdiv, Int.tdiv_eq_ediv_of_nonneg (by omega)]
  omega

theorem firstDue_of_lt (hvalid : policy.Valid) (hbefore : cursor.lastDueAt < policy.startMillis) :
    firstDue policy.startMillis policy.interval.asMillis cursor.lastDueAt = 0 := by
  have hinterval := hvalid.interval
  have hnegative := Int.ediv_lt_iff_lt_mul (a := cursor.lastDueAt - policy.startMillis) (b := 0)
    (c := (policy.interval.asMillis : ℤ)) (by omega)
  have hbelow : (cursor.lastDueAt - policy.startMillis) / (policy.interval.asMillis : ℤ) < 0 := by
    rw [hnegative]
    omega
  unfold firstDue
  rw [max_eq_left (by omega)]

theorem firstAfter_eq_firstDue (hvalid : policy.Valid) (hgrid : CursorInRange policy cursor) :
    Store.firstAfter policy cursor =
      firstDue policy.startMillis policy.interval.asMillis cursor.lastDueAt := by
  have hinterval := hvalid.interval
  rcases hgrid with hafter | ⟨hlow, hhigh⟩
  · have hnonneg : 0 ≤ (cursor.lastDueAt - policy.startMillis) / (policy.interval.asMillis : ℤ) :=
      Int.ediv_nonneg (by omega) (by omega)
    unfold Store.firstAfter firstDue
    rw [Int.tdiv_eq_ediv_of_nonneg (by omega), max_eq_right (by omega)]
  · rw [firstAfter_of_lt (by omega), firstDue_of_lt hvalid (by omega)]
    have hone : (policy.startMillis - cursor.lastDueAt) / (policy.interval.asMillis : ℤ) = 1 := by
      refine Int.ediv_eq_iff_of_pos (by omega) |>.mpr ?_
      omega
    omega

theorem firstAfter_ne_zero (hvalid : policy.Valid) (hgrid : ¬ CursorInRange policy cursor) :
    cursor.lastDueAt < policy.startMillis ∧ Store.firstAfter policy cursor ≠ 0 ∧
      Store.firstAfter policy cursor ≤ 1 := by
  have hinterval := hvalid.interval
  unfold CursorInRange at hgrid
  have hbefore : cursor.lastDueAt < policy.startMillis := by omega
  have hnonneg : 0 ≤ (policy.startMillis - cursor.lastDueAt) / (policy.interval.asMillis : ℤ) :=
    Int.ediv_nonneg (by omega) (by omega)
  refine ⟨hbefore, ?_, ?_⟩
  · rw [firstAfter_of_lt hbefore]
    intro hzero
    have hone : (policy.startMillis - cursor.lastDueAt) / (policy.interval.asMillis : ℤ) = 1 := by
      omega
    have hbounds := (Int.ediv_eq_iff_of_pos (by omega)).mp hone
    omega
  · rw [firstAfter_of_lt hbefore]
    omega

/-- A window of the range that is due makes an exact tick. -/
theorem exactTick_of_range (hvalid : policy.Valid) {first last : ℤ}
    (hfirst : first = firstDue policy.startMillis policy.interval.asMillis cursor.lastDueAt)
    (hlast : last = Store.currentAt policy nowMillis)
    (hinserted : inserted = instants policy.startMillis policy.interval.asMillis
      (max first (last - policy.maxCatchUp + 1)) last)
    (hmaterialized : report.materialized = inserted.length)
    (hskipped : report.skipped = (last - first + 1 - policy.maxCatchUp).toNat)
    (hpending : ∀ instant ∈ inserted, store.scheduleFires.find (schedule, instant) = none ∧
      next.scheduleFires.find (schedule, instant) = some (pendingFire instant nowMillis))
    (hothers : ∀ key row, next.scheduleFires.find key = some row →
      (∃ instant ∈ inserted, key = (schedule, instant)) ∨
        store.scheduleFires.find key = some row) :
    ExactTick (dueInstants policy.startMillis policy.interval.asMillis cursor.lastDueAt nowMillis)
      schedule policy.maxCatchUp nowMillis store next report inserted := by
  have hinterval : (0 : ℤ) < policy.interval.asMillis := by
    have hbound := hvalid.interval
    omega
  have hcard : (dueInstants policy.startMillis policy.interval.asMillis cursor.lastDueAt
      nowMillis).ncard = (last - first + 1).toNat := by
    rw [ncard_dueInstants hinterval, hfirst, hlast]
    rfl
  have hlength : inserted.length = (last - max first (last - policy.maxCatchUp + 1) + 1).toNat := by
    rw [hinserted, length_instants]
  refine ⟨?_, ?_, ?_, ?_, hmaterialized, ?_, hpending, hothers⟩
  · rw [hinserted]
    exact instants_nodup hinterval _ _
  · intro instant hinstant
    rw [hinserted, mem_instants_iff] at hinstant
    obtain ⟨index, hlow, hhigh, heq⟩ := hinstant
    rw [mem_dueInstants_iff hinterval, ← hfirst]
    exact ⟨index, (le_max_left _ _).trans hlow, by rw [hlast] at hhigh; exact hhigh, heq⟩
  · intro instant hinstant other hother hnot
    rw [hinserted, mem_instants_iff] at hinstant hnot
    obtain ⟨index, hlow, -, heq⟩ := hinstant
    rw [mem_dueInstants_iff hinterval, ← hfirst] at hother
    obtain ⟨earlier, hfrom, hto, hsame⟩ := hother
    have hlt : earlier < index := by
      by_contra hle
      refine hnot ⟨earlier, by omega, ?_, hsame⟩
      rw [hlast]
      exact hto
    have hproduct : earlier * policy.interval.asMillis < index * policy.interval.asMillis :=
      Int.mul_lt_mul_of_pos_right hlt hinterval
    omega
  · rw [hcard, hlength]
    omega
  · rw [hcard, hlength, hskipped]
    omega

/-- A tick that counts another number of occurrences than are due is not exact. -/
theorem firstDue_of_exactTick (hvalid : policy.Valid) (hstart : policy.startMillis ≤ nowMillis)
    {first : ℤ} (hfirst : first ≤ 1)
    (hbefore : cursor.lastDueAt < policy.startMillis)
    (hinserted : inserted = instants policy.startMillis policy.interval.asMillis
      (max first (Store.currentAt policy nowMillis - policy.maxCatchUp + 1))
      (Store.currentAt policy nowMillis))
    (hskipped : report.skipped =
      (Store.currentAt policy nowMillis - first + 1 - policy.maxCatchUp).toNat)
    (hexact : ExactTick (dueInstants policy.startMillis policy.interval.asMillis cursor.lastDueAt
      nowMillis) schedule policy.maxCatchUp nowMillis store next report inserted) :
    first = 0 := by
  have hbound := hvalid.interval
  have hinterval : (0 : ℤ) < policy.interval.asMillis := by omega
  have hcatchUp := hvalid.catchUp
  have hcard : (dueInstants policy.startMillis policy.interval.asMillis cursor.lastDueAt
      nowMillis).ncard = (Store.currentAt policy nowMillis + 1).toNat := by
    rw [ncard_dueInstants hinterval, firstDue_of_lt hvalid hbefore, sub_zero]
    rfl
  have hcurrent : 0 ≤ Store.currentAt policy nowMillis := Int.ediv_nonneg (by omega) hinterval.le
  have hlength : inserted.length = (Store.currentAt policy nowMillis -
      max first (Store.currentAt policy nowMillis - policy.maxCatchUp + 1) + 1).toNat := by
    rw [hinserted, length_instants]
  have hcount := hexact.count
  have hleft := hexact.skipped
  omega

end Exact

/-- The fires of every reachable store are behind the cursors of their schedules. -/
theorem run_firesBehindCursors (limits : StoreLimits) (calls : List Call) :
    (run (Store.open limits) calls).FiresBehindCursors := by
  intro schedule due row hfind
  have hinvariant := scheduleInvariant limits calls
  exact hinvariant.covered schedule due (hinvariant.stored (schedule, due) row hfind)

/-- A tick on a schedule with a cursor materializes exactly the occurrences that are due
if and only if the cursor is not before the start, or lies at least one interval and less
than two before it. -/
theorem ticks_exact_iff_cursor_in_range (store : Store) (schedule : String)
    (policy : SchedulePolicy) (nowMillis : ℤ) (cursor : CursorRow) :
    (∀ limits calls, (run (Store.open limits) calls).FiresBehindCursors) ∧
    (store.FiresBehindCursors →
      policy.validateInstant nowMillis = .ok () →
      validateIdentity schedule maxResourceNameBytes = .ok () →
      policy.startMillis ≤ nowMillis →
      store.scheduleCursors.find schedule = some cursor →
      i64Min ≤ cursor.lastDueAt → cursor.lastDueAt ≤ i64Max →
      ((∃ report inserted next,
          store.materializeSchedule schedule policy nowMillis = .ok ((report, inserted), next) ∧
          ExactTick (dueInstants policy.startMillis policy.interval.asMillis cursor.lastDueAt
            nowMillis) schedule policy.maxCatchUp nowMillis store next report inserted) ↔
        CursorInRange policy cursor)) := by
  refine ⟨run_firesBehindCursors, ?_⟩
  intro hbehind hvalid hname hstart hcursor hlow hhigh
  have hpolicy := (Store.validateInstant_spec hvalid).1
  have hbound := hpolicy.interval
  constructor
  · rintro ⟨report, inserted, next, htick, hexact⟩
    by_contra hgrid
    obtain ⟨hbefore, hnonzero, hone⟩ := firstAfter_ne_zero hpolicy hgrid
    by_cases hoffset : i64Min ≤ cursor.lastDueAt - policy.startMillis
    · obtain ⟨report', inserted', next', hresult, hinserted, -, hskipped, -, -⟩ :=
        Store.materializeSchedule_range hvalid hname hstart hcursor hlow hhigh hoffset hbehind
      rw [htick, Except.ok.injEq, Prod.mk.injEq, Prod.mk.injEq] at hresult
      obtain ⟨⟨hreport, hsame⟩, -⟩ := hresult
      subst hreport hsame
      exact hnonzero (firstDue_of_exactTick hpolicy hstart hone hbefore hinserted hskipped hexact)
    · exact Store.materializeSchedule_far hstart hcursor (by omega) _ htick
  · intro hgrid
    have hoffset : i64Min ≤ cursor.lastDueAt - policy.startMillis := by
      unfold CursorInRange at hgrid
      unfold i64Min
      omega
    obtain ⟨report, inserted, next, htick, hinserted, hmaterialized, hskipped, hpending, hothers⟩ :=
      Store.materializeSchedule_range hvalid hname hstart hcursor hlow hhigh hoffset hbehind
    refine ⟨report, inserted, next, htick, ?_⟩
    exact exactTick_of_range hpolicy (firstAfter_eq_firstDue hpolicy hgrid) rfl hinserted
      hmaterialized hskipped hpending hothers

/-- A schedule that started with the epoch is moved to start half a second later, and to
start five seconds later. -/
def movedSchedule (startMillis : ℤ) : SchedulePolicy :=
  { sampleSchedulePolicy with startMillis }

/-- After a first tick at the epoch, the first occurrence of the schedule that starts
later is neither materialized nor skipped; and occurrences before the start are
materialized when the start is further away. -/
theorem tick_misses_start :
    ((run (Store.open sampleLimits)
        [.materializeSchedule "daily" (movedSchedule 0) 0]).scheduleCursors.find "daily").map
      CursorRow.lastDueAt = some 0 ∧
    500 ∈ dueInstants 500 1000 0 700 ∧
    ((run (Store.open sampleLimits)
        [.materializeSchedule "daily" (movedSchedule 0) 0]).materializeSchedule "daily"
          (movedSchedule 500) 700).toOption.map Prod.fst =
      some ({ materialized := 0, skipped := 0, cursorDueMillis := 500 }, []) ∧
    ((run (Store.open sampleLimits)
        [.materializeSchedule "daily" (movedSchedule 0) 0]).materializeSchedule "daily"
          (movedSchedule 5000) 5000).toOption.map Prod.fst =
      some ({ materialized := 2, skipped := 3, cursorDueMillis := 5000 }, [4000, 5000]) := by
  refine ⟨by decide +kernel, ⟨0, by omega, by omega, by omega⟩, by decide +kernel,
    by decide +kernel⟩

/-- Three seconds after its first tick the schedule has its last two occurrences
materialized, and the one before them skipped. -/
theorem ticks_exact_iff_cursor_in_range_sample :
    ∃ cursor, (run (Store.open sampleLimits)
        [.materializeSchedule "daily" (movedSchedule 0) 0]).scheduleCursors.find "daily" =
          some cursor ∧
      CursorInRange (movedSchedule 0) cursor ∧
      ∃ report inserted next, (run (Store.open sampleLimits)
          [.materializeSchedule "daily" (movedSchedule 0) 0]).materializeSchedule "daily"
            (movedSchedule 0) 3000 = .ok ((report, inserted), next) ∧
        ExactTick (dueInstants 0 1000 cursor.lastDueAt 3000) "daily" (movedSchedule 0).maxCatchUp
          3000 (run (Store.open sampleLimits) [.materializeSchedule "daily" (movedSchedule 0) 0])
          next report inserted := by
  have hlast : ((run (Store.open sampleLimits)
      [.materializeSchedule "daily" (movedSchedule 0) 0]).scheduleCursors.find "daily").map
        CursorRow.lastDueAt = some 0 := by
    decide +kernel
  obtain ⟨cursor, hcursor, hzero⟩ := Option.map_eq_some_iff.mp hlast
  have hrange : CursorInRange (movedSchedule 0) cursor := by
    refine Or.inl ?_
    rw [hzero]
    exact Int.le_refl 0
  obtain ⟨hbehind, hexact⟩ := ticks_exact_iff_cursor_in_range
    (run (Store.open sampleLimits) [.materializeSchedule "daily" (movedSchedule 0) 0]) "daily"
    (movedSchedule 0) 3000 cursor
  refine ⟨cursor, hcursor, hrange, ?_⟩
  exact (hexact (hbehind sampleLimits _) (Result.eq_ok_of_toBool (by decide +kernel))
    (Result.eq_ok_of_toBool (by decide +kernel)) (by decide) hcursor
    (by rw [hzero]; decide) (by rw [hzero]; decide)).mpr hrange

end Krit.Durable
