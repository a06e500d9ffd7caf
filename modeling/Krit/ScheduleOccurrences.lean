import Krit.QueueDeliveries

/-!
# Schedule occurrences

Fires that are over are pruned, so that the table does not remember which instants
have fired; the cursor does.  A tick inserts only instants after the cursor and moves
the cursor to the last of them, whatever clock, start and interval it is given.
-/

namespace Krit.Durable

open Machine Std

/-! ## What a run has done -/

/-- The fires that a transaction inserted. -/
def insertedBy : Call × Reply → List (String × ℤ)
  | (.materializeSchedule schedule _ _, .materialized _ inserted) =>
      inserted.map fun due => (schedule, due)
  | _ => []

/-- The fire that a transaction completed. -/
def completedBy : Call × Reply → List (String × ℤ)
  | (.commitPlan plan, .committed _) =>
      match plan.completion with
      | some (.fire lease) => [(lease.schedule, lease.dueAtMillis)]
      | _ => []
  | _ => []

def inserted (past : List (Call × Reply)) : List (String × ℤ) := past.flatMap insertedBy

def completed (past : List (Call × Reply)) : List (String × ℤ) := past.flatMap completedBy

/-! ## The effect of a transaction on fires and cursors -/

/-- Fires and cursors after a transaction: cursors only advance, inserted fires are
after the cursor and not after the new one, and a fire that is over stays so. -/
structure FiresEffect (before after : Store) (inserted completed : List (String × ℤ)) : Prop where
  cursors : ∀ schedule cursor, before.scheduleCursors.find schedule = some cursor →
    ∃ later, after.scheduleCursors.find schedule = some later ∧
      cursor.lastDueAt ≤ later.lastDueAt
  nodup : inserted.Nodup
  fresh : ∀ schedule due, (schedule, due) ∈ inserted →
    (∀ cursor, before.scheduleCursors.find schedule = some cursor → cursor.lastDueAt < due) ∧
    ∃ later, after.scheduleCursors.find schedule = some later ∧ due ≤ later.lastDueAt
  rows : ∀ key row, after.scheduleFires.find key = some row → key ∈ inserted ∨
    ∃ old, before.scheduleFires.find key = some old ∧
      (row.status = .pending → old.status = .pending ∧ key ∉ completed)
  completes : ∀ key ∈ completed, ∃ old, before.scheduleFires.find key = some old ∧
    old.status = .pending
  alone : completed = [] ∨ (inserted = [] ∧ completed.Nodup)

namespace FiresEffect

variable {before after : Store}

/-- Fires grow older, and nothing else concerns schedules. -/
theorem ofAged (hcursors : after.scheduleCursors = before.scheduleCursors)
    (haged : Store.Aged before.scheduleFires after.scheduleFires) :
    FiresEffect before after [] [] where
  cursors := by
    intro schedule cursor hfind
    rw [hcursors]
    exact ⟨cursor, hfind, le_rfl⟩
  nodup := List.nodup_nil
  fresh := by simp
  rows := by
    intro key row hfind
    obtain ⟨old, hold, hpending⟩ := haged key row hfind
    exact Or.inr ⟨old, hold, fun hstatus => ⟨hpending hstatus, by simp⟩⟩
  completes := by simp
  alone := Or.inl rfl

theorem refl (store : Store) : FiresEffect store store [] [] := ofAged rfl (Store.Aged.refl _)

/-- A transaction that does not touch schedules. -/
theorem ofEq (hcursors : after.scheduleCursors = before.scheduleCursors)
    (hfires : after.scheduleFires = before.scheduleFires) : FiresEffect before after [] [] := by
  refine ofAged hcursors ?_
  rw [hfires]
  exact Store.Aged.refl _

end FiresEffect

theorem mem_indexRange {first last index : ℤ} (hindex : index ∈ Store.indexRange first last) :
    first ≤ index ∧ index ≤ last := by
  unfold Store.indexRange at hindex
  obtain ⟨offset, hoffset, heq⟩ := List.mem_map.mp hindex
  rw [List.mem_range] at hoffset
  omega

theorem Store.materializeSchedule_firesEffect {store next : Store} {schedule : String}
    {policy : SchedulePolicy} {nowMillis : ℤ} {report : ScheduleCatchUp} {inserted : List ℤ}
    (htick : store.materializeSchedule schedule policy nowMillis =
      .ok ((report, inserted), next)) :
    FiresEffect store next (inserted.map fun due => (schedule, due)) [] := by
  obtain ⟨cleaned, hcleanup, hcases⟩ := Store.materializeSchedule_eq_ok htick
  obtain ⟨fires, hcleaned, haged⟩ := Store.cleanupScheduleFires_eq_ok hcleanup
  subst hcleaned
  rcases hcases with ⟨hnone, hnext⟩ |
    ⟨interval, first, last, filled, hpositive, hle, hafter, hfilled, hnext⟩
  · rw [hnone, hnext]
    exact FiresEffect.ofAged rfl haged
  · obtain ⟨filledFires, added, hfill, hadded, hnodup, hrange, -, hrows⟩ :=
      Store.insertFires_eq_ok hfilled
    rw [List.nil_append] at hadded
    subst hadded hfill
    have hcursor : next.scheduleCursors.find schedule =
        some ⟨policy.startMillis + last * interval, nowMillis⟩ := by
      rw [hnext]
      simp only []
      rw [Table.find_upsert_self]
      cases store.scheduleCursors.find schedule <;> rfl
    have hothers : ∀ other, schedule ≠ other →
        next.scheduleCursors.find other = store.scheduleCursors.find other := by
      intro other hne
      rw [hnext]
      exact Table.find_upsert_of_ne hne _ _ _
    have hlast : first * interval ≤ last * interval :=
      Int.mul_le_mul_of_nonneg_right hle hpositive.le
    constructor
    · intro other cursor hfind
      by_cases hsame : schedule = other
      · subst hsame
        have hbefore := hafter cursor hfind
        exact ⟨_, hcursor, by simp only []; omega⟩
      · rw [hothers other hsame]
        exact ⟨cursor, hfind, le_rfl⟩
    · refine hnodup.map ?_
      intro left right heq
      exact (Prod.mk.inj heq).2
    · intro other due hmem
      obtain ⟨own, hown, heq⟩ := List.mem_map.mp hmem
      rw [Prod.mk.injEq] at heq
      obtain ⟨hname, hdue⟩ := heq
      subst hname hdue
      obtain ⟨index, hindex, hinstant⟩ := hrange own hown
      obtain ⟨hlow, hhigh⟩ := mem_indexRange hindex
      have hfirst : first * interval ≤ index * interval :=
        Int.mul_le_mul_of_nonneg_right hlow hpositive.le
      have hbelow : index * interval ≤ last * interval :=
        Int.mul_le_mul_of_nonneg_right hhigh hpositive.le
      refine ⟨?_, _, hcursor, ?_⟩
      · intro cursor hfind
        have hbefore := hafter cursor hfind
        omega
      · simp only []
        omega
    · intro key row hfind
      rw [hnext] at hfind
      rcases hrows key row hfind with hold | ⟨due, hdue, hkey⟩
      · obtain ⟨old, hbefore, hpending⟩ := haged key row hold
        exact Or.inr ⟨old, hbefore, fun hstatus => ⟨hpending hstatus, by simp⟩⟩
      · exact Or.inl (List.mem_map.mpr ⟨due, hdue, hkey.symm⟩)
    · simp
    · exact Or.inl rfl

/-! ## The effect of a commit -/

/-- The fire that a completion acknowledges, if it is one of a fire. -/
def Completion.fireKeys : Option Completion → List (String × ℤ)
  | some (.fire lease) => [(lease.schedule, lease.dueAtMillis)]
  | _ => []

theorem FireLease.owns_iff {lease : FireLease} {key : String × ℤ} {row : FireRow} :
    lease.owns key row = true ↔ key = (lease.schedule, lease.dueAtMillis) ∧
      row.status = .pending ∧ row.owner = some lease.owner := by
  unfold FireLease.owns
  simp [and_assoc]

theorem FireLease.owns_key {lease : FireLease} (key : String × ℤ) (row : FireRow)
    (howns : lease.owns key row = true) : key = (lease.schedule, lease.dueAtMillis) :=
  (FireLease.owns_iff.mp howns).1

/-- The pending fire under a key is the one that is completed. -/
theorem FiresEffect.finish (change : FireRow → FireRow) {before after : Store}
    {condition : String × ℤ → FireRow → Bool} {key : String × ℤ} {row : FireRow}
    (hcursors : after.scheduleCursors = before.scheduleCursors)
    (hfires : after.scheduleFires = before.scheduleFires.update condition change)
    (hchange : ∀ row, (change row).status ≠ .pending)
    (hfind : before.scheduleFires.find key = some row) (hpending : row.status = .pending)
    (hcondition : condition key row = true) : FiresEffect before after [] [key] where
  cursors := by
    intro schedule cursor hcursor
    rw [hcursors]
    exact ⟨cursor, hcursor, le_rfl⟩
  nodup := List.nodup_nil
  fresh := by simp
  rows := by
    intro other found hfound
    right
    rw [hfires, Table.find_update, Option.map_eq_some_iff] at hfound
    obtain ⟨old, hold, heq⟩ := hfound
    refine ⟨old, hold, ?_⟩
    intro hstatus
    by_cases hchanged : condition other old = true
    · rw [if_pos hchanged] at heq
      rw [← heq] at hstatus
      exact absurd hstatus (hchange old)
    · rw [if_neg hchanged] at heq
      rw [heq]
      refine ⟨hstatus, ?_⟩
      intro hmem
      have hsame : other = key := List.mem_singleton.mp hmem
      rw [hsame, hfind, Option.some.injEq] at hold
      rw [hsame, ← hold] at hchanged
      exact hchanged hcondition
  completes := by
    intro other hother
    rw [List.mem_singleton.mp hother]
    exact ⟨row, hfind, hpending⟩
  alone := Or.inr ⟨rfl, List.nodup_singleton key⟩

/-- The effect only looks at fires and cursors. -/
theorem FiresEffect.congr {before before' after after' : Store}
    {inserted completed : List (String × ℤ)}
    (heffect : FiresEffect before after inserted completed)
    (hfires : before'.scheduleFires = before.scheduleFires)
    (hcursors : before'.scheduleCursors = before.scheduleCursors)
    (hfires' : after'.scheduleFires = after.scheduleFires)
    (hcursors' : after'.scheduleCursors = after.scheduleCursors) :
    FiresEffect before' after' inserted completed := by
  constructor
  · rw [hcursors, hcursors']
    exact heffect.cursors
  · exact heffect.nodup
  · rw [hcursors, hcursors']
    exact heffect.fresh
  · rw [hfires, hfires']
    exact heffect.rows
  · rw [hfires]
    exact heffect.completes
  · exact heffect.alone

theorem Store.complete_firesEffect {store next : Store} {nowMillis : ℤ}
    {completion : Option Completion} (hcomplete : store.complete nowMillis completion = .ok next) :
    FiresEffect store next [] (Completion.fireKeys completion) := by
  cases completion with
  | none =>
    rw [Store.complete, Result.pure_eq_ok] at hcomplete
    rw [← hcomplete]
    exact FiresEffect.refl _
  | some completion =>
    cases completion with
    | job lease =>
      simp only [Store.complete, Result.bind_eq_ok, Result.pure_eq_ok] at hcomplete
      obtain ⟨-, -, hnext⟩ := hcomplete
      rw [← hnext]
      exact FiresEffect.ofEq rfl rfl
    | fire lease =>
      simp only [Store.complete, Result.bind_eq_ok, Result.pure_eq_ok, Result.ensure_eq_ok,
        beq_iff_eq] at hcomplete
      obtain ⟨-, hone, hnext⟩ := hcomplete
      rw [← hnext]
      rcases Table.select_eq_nil_or_singleton store.scheduleFires lease.owns_key with
        ⟨hnone, -⟩ | ⟨row, -, hfind, howns⟩
      · rw [hnone] at hone
        cases hone
      · obtain ⟨-, hpending, -⟩ := FireLease.owns_iff.mp howns
        refine FiresEffect.finish
          (fun row =>
            { row with
              status := .completed
              owner := none
              leaseUntil := none
              updatedAt := nowMillis })
          rfl rfl ?_ hfind hpending howns
        intro old hstatus
        cases hstatus

theorem Store.commitPlan_firesEffect {store next : Store} {plan : CommitPlan} {revision : ℕ}
    (hcommit : store.commitPlan plan = .ok (revision, next)) :
    FiresEffect store next [] (Completion.fireKeys plan.completion) := by
  obtain ⟨-, applied, completed, happlied, hcompleted, hlast⟩ := Store.commitPlan_eq_ok hcommit
  obtain ⟨_, _, _, _, _, happly⟩ := Store.applyMutations_frame happlied
  have heffect := Store.complete_firesEffect hcompleted
  have hfires : store.scheduleFires = applied.scheduleFires := by rw [happly]
  have hcursors : store.scheduleCursors = applied.scheduleCursors := by rw [happly]
  rcases hlast with ⟨-, hadvance⟩ | ⟨-, -, hnext⟩
  · have hnext := (Store.advance_eq_ok hadvance).2
    exact heffect.congr hfires hcursors (by rw [hnext]) (by rw [hnext])
  · rw [hnext]
    exact heffect.congr hfires hcursors rfl rfl

/-! ## Every step -/

theorem insertedBy_of_area {call : Call} (harea : call.area ≠ .schedules) (reply : Reply) :
    insertedBy (call, reply) = [] := by
  cases call with
  | materializeSchedule schedule policy now => exact absurd rfl harea
  | _ => rfl

theorem completedBy_of_area {call : Call} (harea : call.area ≠ .outcome) (reply : Reply) :
    completedBy (call, reply) = [] := by
  cases call with
  | commitPlan plan => exact absurd rfl harea
  | _ => rfl

/-- Calls on jobs and on retained records do not concern schedules. -/
theorem Store.step_firesEffect_of_area {store : Store} {call : Call}
    (hcommit : call.area ≠ .outcome) (hschedules : call.area ≠ .schedules) :
    FiresEffect store (store.step call).2 (insertedBy (call, (store.step call).1))
      (completedBy (call, (store.step call).1)) := by
  rw [insertedBy_of_area hschedules, completedBy_of_area hcommit]
  have hframe := store.step_frame call
  cases harea : call.area with
  | outcome => exact absurd harea hcommit
  | schedules => exact absurd harea hschedules
  | jobs =>
    rw [harea] at hframe
    obtain ⟨queueJobs, queueDead, hnext⟩ := hframe
    rw [hnext]
    exact FiresEffect.ofEq rfl rfl
  | replay =>
    rw [harea] at hframe
    obtain ⟨records, hnext⟩ := hframe
    rw [hnext]
    exact FiresEffect.ofEq rfl rfl
  | idempotency =>
    rw [harea] at hframe
    obtain ⟨records, hnext⟩ := hframe
    rw [hnext]
    exact FiresEffect.ofEq rfl rfl

/-- What one call does to fires and cursors. -/
theorem Store.step_firesEffect (store : Store) (call : Call) :
    FiresEffect store (store.step call).2 (insertedBy (call, (store.step call).1))
      (completedBy (call, (store.step call).1)) := by
  cases call with
  | commitPlan plan =>
    rw [Store.step]
    cases hcommit : store.commitPlan plan with
    | error error => exact FiresEffect.refl _
    | ok result =>
      have heffect := Store.commitPlan_firesEffect hcommit
      simp only [answer, insertedBy, completedBy]
      cases hcompletion : plan.completion with
      | none =>
        rw [hcompletion] at heffect
        exact heffect
      | some completion =>
        rw [hcompletion] at heffect
        cases completion with
        | job lease => exact heffect
        | fire lease => exact heffect
  | materializeSchedule schedule policy now =>
    rw [Store.step]
    cases htick : store.materializeSchedule schedule policy now with
    | error error => exact FiresEffect.refl _
    | ok result => exact Store.materializeSchedule_firesEffect htick
  | reserveScheduleFire schedule policy owner now =>
    rw [Store.step]
    cases hreserve : store.reserveScheduleFire schedule policy owner now with
    | error error => exact FiresEffect.refl _
    | ok result =>
      obtain ⟨scheduleFires, hnext, haged⟩ := Store.reserveScheduleFire_eq_ok hreserve
      rw [answer, hnext]
      exact FiresEffect.ofAged rfl haged
  | failScheduleFire lease policy now =>
    rw [Store.step]
    cases hfail : store.failScheduleFire lease policy now with
    | error error => exact FiresEffect.refl _
    | ok result =>
      obtain ⟨scheduleFires, hnext, haged⟩ := Store.failScheduleFire_eq_ok hfail
      rw [answer, hnext]
      exact FiresEffect.ofAged rfl haged
  | _ => exact Store.step_firesEffect_of_area (by simp [Call.area]) (by simp [Call.area])

/-! ## Every run -/

/-- What every run of a new store has done: the cursor of a schedule covers every
instant that was inserted, and a fire that was completed is not pending again. -/
structure ScheduleInvariant (past : List (Call × Reply)) (store : Store) : Prop where
  insertedOnce : (inserted past).Nodup
  completedOnce : (completed past).Nodup
  covered : ∀ schedule due, (schedule, due) ∈ inserted past →
    ∃ cursor, store.scheduleCursors.find schedule = some cursor ∧ due ≤ cursor.lastDueAt
  stored : ∀ key row, store.scheduleFires.find key = some row → key ∈ inserted past
  finished : ∀ key ∈ completed past, key ∈ inserted past ∧
    ∀ row, store.scheduleFires.find key = some row → row.status ≠ .pending

theorem ScheduleInvariant.open (limits : StoreLimits) :
    ScheduleInvariant [] (Store.open limits) where
  insertedOnce := List.nodup_nil
  completedOnce := List.nodup_nil
  covered := by simp [inserted]
  stored := by
    intro key row hfind
    cases hfind
  finished := by simp [completed]

/-- An instant that is inserted now is after the cursor, so it was not inserted before. -/
theorem ScheduleInvariant.fresh {past : List (Call × Reply)} {store next : Store}
    (hinvariant : ScheduleInvariant past store) {added finished : List (String × ℤ)}
    (heffect : FiresEffect store next added finished) {key : String × ℤ} (hkey : key ∈ added) :
    key ∉ inserted past := by
  intro hmem
  obtain ⟨schedule, due⟩ := key
  obtain ⟨cursor, hcursor, hle⟩ := hinvariant.covered schedule due hmem
  have hlt := (heffect.fresh schedule due hkey).1 cursor hcursor
  omega

theorem ScheduleInvariant.step {past : List (Call × Reply)} {store : Store}
    (hinvariant : ScheduleInvariant past store) (call : Call) :
    ScheduleInvariant (past ++ [(call, (store.step call).1)]) (store.step call).2 := by
  have heffect := store.step_firesEffect call
  generalize hreply : (call, (store.step call).1) = reply at heffect ⊢
  have hinserted : inserted (past ++ [reply]) = inserted past ++ insertedBy reply := by
    simp [inserted]
  have hcompleted : completed (past ++ [reply]) = completed past ++ completedBy reply := by
    simp [completed]
  have hfresh : ∀ key ∈ insertedBy reply, key ∉ inserted past := by
    intro key hkey
    exact hinvariant.fresh heffect hkey
  constructor
  · rw [hinserted]
    refine List.nodup_append.mpr ⟨hinvariant.insertedOnce, heffect.nodup, ?_⟩
    intro old hold key hkey heq
    rw [heq] at hold
    exact hfresh key hkey hold
  · rw [hcompleted]
    have hnodup : (completedBy reply).Nodup := by
      rcases heffect.alone with hnone | ⟨-, hnodup⟩
      · rw [hnone]
        exact List.nodup_nil
      · exact hnodup
    refine List.nodup_append.mpr ⟨hinvariant.completedOnce, hnodup, ?_⟩
    intro old hold key hkey heq
    obtain ⟨row, hfind, hpending⟩ := heffect.completes key hkey
    rw [heq] at hold
    exact (hinvariant.finished key hold).2 row hfind hpending
  · intro schedule due hmem
    rw [hinserted] at hmem
    rcases List.mem_append.mp hmem with hold | hnew
    · obtain ⟨cursor, hcursor, hle⟩ := hinvariant.covered schedule due hold
      obtain ⟨later, hlater, hadvance⟩ := heffect.cursors schedule cursor hcursor
      exact ⟨later, hlater, by omega⟩
    · exact (heffect.fresh schedule due hnew).2
  · intro key row hfind
    rw [hinserted]
    rcases heffect.rows key row hfind with hnew | ⟨old, hold, -⟩
    · exact List.mem_append_right _ hnew
    · exact List.mem_append_left _ (hinvariant.stored key old hold)
  · intro key hmem
    rw [hcompleted] at hmem
    rw [hinserted]
    rcases List.mem_append.mp hmem with hold | hnew
    · obtain ⟨hkey, hstatus⟩ := hinvariant.finished key hold
      refine ⟨List.mem_append_left _ hkey, ?_⟩
      intro row hfind hpending
      rcases heffect.rows key row hfind with hagain | ⟨old, hrow, hbefore⟩
      · exact hfresh key hagain hkey
      · exact hstatus old hrow (hbefore hpending).1
    · obtain ⟨old, hrow, -⟩ := heffect.completes key hnew
      refine ⟨List.mem_append_left _ (hinvariant.stored key old hrow), ?_⟩
      intro row hfind hpending
      rcases heffect.rows key row hfind with hagain | ⟨found, -, hbefore⟩
      · exact hfresh key hagain (hinvariant.stored key old hrow)
      · exact (hbefore hpending).2 hnew

theorem scheduleInvariant (limits : StoreLimits) (calls : List Call) :
    ScheduleInvariant (history (Store.open limits) calls) (run (Store.open limits) calls) :=
  History.invariant Store.step (.open limits)
    (fun _ _ call hinvariant => hinvariant.step call) calls

/-- Cursors never decrease, from any store. -/
theorem cursors_advance (store : Store) (calls : List Call) :
    ∀ schedule cursor, store.scheduleCursors.find schedule = some cursor →
      ∃ later, (run store calls).scheduleCursors.find schedule = some later ∧
        cursor.lastDueAt ≤ later.lastDueAt := by
  induction calls generalizing store with
  | nil =>
    intro schedule cursor hfind
    exact ⟨cursor, hfind, le_rfl⟩
  | cons call rest ih =>
    intro schedule cursor hfind
    obtain ⟨middle, hmiddle, hfirst⟩ := (store.step_firesEffect call).cursors schedule cursor hfind
    obtain ⟨later, hlater, hrest⟩ := ih (store.step call).2 schedule middle hmiddle
    exact ⟨later, hlater, by omega⟩

/-- A fire that appears during a run was inserted during it. -/
theorem appears_of_inserted (store : Store) (calls : List Call) {key : String × ℤ} {row : FireRow}
    (habsent : store.scheduleFires.find key = none)
    (hfind : (run store calls).scheduleFires.find key = some row) :
    key ∈ inserted (history store calls) := by
  induction calls generalizing store with
  | nil =>
    rw [run, History.run_nil, habsent] at hfind
    cases hfind
  | cons call rest ih =>
    have hsplit : inserted (history store (call :: rest)) =
        insertedBy (call, (store.step call).1) ++
          inserted (history (store.step call).2 rest) := rfl
    rw [hsplit]
    cases hmiddle : (store.step call).2.scheduleFires.find key with
    | none => exact List.mem_append_right _ (ih _ hmiddle hfind)
    | some middle =>
      rcases (store.step_firesEffect call).rows key middle hmiddle with hnew | ⟨old, hold, -⟩
      · exact List.mem_append_left _ hnew
      · rw [habsent] at hold
        cases hold

/-- No occurrence fires twice, whatever instants and policies the calls are given: over
every run, each instant of a schedule is inserted at most once and completed at most
once; an instant that is pruned does not come back; a stored fire was inserted and is
not after the cursor; and the cursor never decreases. -/
theorem occurrences_fire_once (limits : StoreLimits) (calls more : List Call) :
    (inserted (history (Store.open limits) calls)).Nodup ∧
    (completed (history (Store.open limits) calls)).Nodup ∧
    (∀ key ∈ completed (history (Store.open limits) calls),
      key ∈ inserted (history (Store.open limits) calls)) ∧
    (∀ schedule due row,
      (run (Store.open limits) calls).scheduleFires.find (schedule, due) = some row →
        (schedule, due) ∈ inserted (history (Store.open limits) calls) ∧
        ∃ cursor, (run (Store.open limits) calls).scheduleCursors.find schedule = some cursor ∧
          due ≤ cursor.lastDueAt) ∧
    (∀ key row, (run (Store.open limits) calls).scheduleFires.find key = none →
      (run (Store.open limits) (calls ++ more)).scheduleFires.find key = some row →
        key ∉ inserted (history (Store.open limits) calls)) ∧
    ∀ schedule cursor,
      (run (Store.open limits) calls).scheduleCursors.find schedule = some cursor →
        ∃ later,
          (run (Store.open limits) (calls ++ more)).scheduleCursors.find schedule = some later ∧
          cursor.lastDueAt ≤ later.lastDueAt := by
  have hinvariant := scheduleInvariant limits calls
  have hrun : run (Store.open limits) (calls ++ more) =
      run (run (Store.open limits) calls) more := History.run_append _ _ _ _
  refine ⟨hinvariant.insertedOnce, hinvariant.completedOnce, ?_, ?_, ?_, ?_⟩
  · intro key hkey
    exact (hinvariant.finished key hkey).1
  · intro schedule due row hfind
    have hmem := hinvariant.stored (schedule, due) row hfind
    exact ⟨hmem, hinvariant.covered schedule due hmem⟩
  · intro key row habsent hfind hold
    rw [hrun] at hfind
    have hnew := appears_of_inserted _ more habsent hfind
    have hhistory : history (Store.open limits) (calls ++ more) =
        history (Store.open limits) calls ++ history (run (Store.open limits) calls) more :=
      History.history_append _ _ _ _
    have hnodup := (scheduleInvariant limits (calls ++ more)).insertedOnce
    rw [hhistory, inserted, List.flatMap_append, List.nodup_append] at hnodup
    exact hnodup.2.2 key hold key hnew rfl
  · rw [hrun]
    exact cursors_advance _ more

def sampleSchedulePolicy : SchedulePolicy :=
  { interval := .fromSecs 1
    startMillis := 0
    maxCatchUp := 2
    maxAttempts := 3
    lease := .fromMillis 100
    backoff := .fromMillis 10
    maxBackoff := .fromMillis 10
    retention := .fromMillis 1
    maxRetainedFires := 10 }

/-- Three ticks, the second with a clock that went backwards; the first fire is completed
before the last tick, which prunes it. -/
def sampleScheduleCalls : List Call :=
  [.materializeSchedule "daily" sampleSchedulePolicy 3000,
    .materializeSchedule "daily" sampleSchedulePolicy 2000,
    .reserveScheduleFire "daily" sampleSchedulePolicy 7 3000,
    .commitPlan
      { expectedRevision := 0
        mutations := []
        queues := ∅
        buckets := ∅
        nowMillis := 3050
        completion := some (.fire ⟨"daily", 3000, 7⟩) },
    .materializeSchedule "daily" sampleSchedulePolicy 6000]

theorem occurrences_fire_once_sample :
    inserted (history (Store.open sampleLimits) sampleScheduleCalls) =
      [("daily", 3000), ("daily", 5000), ("daily", 6000)] ∧
    completed (history (Store.open sampleLimits) sampleScheduleCalls) = [("daily", 3000)] ∧
    (inserted (history (Store.open sampleLimits) sampleScheduleCalls)).Nodup :=
  ⟨by decide +kernel, by decide +kernel,
    (occurrences_fire_once sampleLimits sampleScheduleCalls []).1⟩

end Krit.Durable
