import Krit.DeadLetters

/-!
# The places of a job

A published job is in the queue, or a commit has acknowledged it, or a transaction has
moved it to the dead letters.  A move is read off the tables: the job leaves the queue,
and its entry stands among the dead letters of the queue unless the entry bound, which
the same transaction enforces, leaves the entry out.  Later only a transaction on the
queue takes an entry away, by that bound or by its age.
-/

namespace Krit.Durable

open Machine Std

/-! ## Moves and prunings -/

/-- A transaction moves a job without attempts left to the dead letters of its queue. -/
inductive Moves (before after : Store) : Call → Identity → DeadRow → Prop
  | reserved {queue : String} {policy : QueuePolicy} {owner : Identity} {nowMillis : ℤ}
      {id : Identity} {row : JobRow} (hqueued : before.queueJobs.find id = some row)
      (hexhausted : row.exhausted queue policy nowMillis = true)
      (hgone : after.queueJobs.find id = none)
      (hentry : after.Keeps queue policy id
        (row.deadRow queue Store.exhaustedReason nowMillis)) :
      Moves before after (.reserveJob queue policy owner nowMillis) id
        (row.deadRow queue Store.exhaustedReason nowMillis)
  | failed {lease : JobLease} {reason : String} {policy : QueuePolicy} {nowMillis : ℤ}
      {row : JobRow} (hqueued : before.queueJobs.find lease.id = some row)
      (howns : lease.owns lease.id row = true) (hexhausted : policy.maxAttempts ≤ row.attempts)
      (hgone : after.queueJobs.find lease.id = none)
      (hentry : after.Keeps lease.queue policy lease.id
        (row.deadRow lease.queue (boundedReason reason) nowMillis)) :
      Moves before after (.failJob lease reason policy nowMillis) lease.id
        (row.deadRow lease.queue (boundedReason reason) nowMillis)

/-- A transaction prunes an entry: it is too old, or the bound of its queue is full of
entries that were published no earlier. -/
inductive Prunes (after : Store) (entry : DeadRow) : Call → Prop
  | expired {policy : QueuePolicy} {owner : Identity} {nowMillis : ℤ}
      (hexpired : entry.failedAt ≤ nowMillis - policy.deadLetterTtl.asMillis) :
      Prunes after entry (.reserveJob entry.queue policy owner nowMillis)
  | reserved {policy : QueuePolicy} {owner : Identity} {nowMillis : ℤ}
      (hfull : policy.deadLetterMaxEntries ≤ after.deadFrom entry.queue entry.sequence) :
      Prunes after entry (.reserveJob entry.queue policy owner nowMillis)
  | failed {lease : JobLease} {reason : String} {policy : QueuePolicy} {nowMillis : ℤ}
      (hqueue : lease.queue = entry.queue)
      (hfull : policy.deadLetterMaxEntries ≤ after.deadFrom entry.queue entry.sequence) :
      Prunes after entry (.failJob lease reason policy nowMillis)

/-- A transaction of a run moved a job to the dead letters. -/
def DeadLettered (limits : StoreLimits) (calls : List Call) (id : Identity)
    (entry : DeadRow) : Prop :=
  ∃ earlier call later, calls = earlier ++ call :: later ∧
    Moves (run (Store.open limits) earlier) (run (Store.open limits) (earlier ++ [call])) call id
      entry

/-! ## One transaction -/

namespace JobsEffect

variable {before after : Table Identity JobRow} {moved : List Identity} {delivered : List JobLease}

/-- What is moved is not in the queue any more. -/
theorem gone (heffect : JobsEffect before after [] [] moved delivered) {id : Identity}
    (hmoved : id ∈ moved) : after.find id = none := by
  have hconserved := heffect.conserved
  rw [List.append_nil, List.map_nil, List.append_nil] at hconserved
  have hnodup : (after.keys ++ moved).Nodup := hconserved.nodup_iff.mp before.nodup
  by_contra hfind
  exact (List.nodup_append.mp hnodup).2.2 id (Table.mem_keys_iff.mpr hfind) id hmoved rfl

/-- What is not in the queue any more was moved. -/
theorem moved_of_gone (heffect : JobsEffect before after [] [] moved delivered) {id : Identity}
    {row : JobRow} (hfind : before.find id = some row) (hgone : after.find id = none) :
    id ∈ moved := by
  have hconserved := heffect.conserved
  rw [List.append_nil, List.map_nil, List.append_nil] at hconserved
  have hkey : id ∈ before.keys := by
    rw [Table.mem_keys_iff, hfind]
    exact Option.some_ne_none row
  rcases List.mem_append.mp (hconserved.mem_iff.mp hkey) with hkept | hmoved
  · exact absurd hgone (Table.mem_keys_iff.mp hkept)
  · exact hmoved

end JobsEffect

namespace Store

section Entries

variable {store next : Store} {queue : String} {policy : QueuePolicy} {owner : Identity}
  {nowMillis : ℤ} {id : Identity} {row : JobRow} {reason : String}

theorem find_enforce (henforce : store.enforceDeadLetterBounds queue policy = .ok next)
    {entry : DeadRow} (hfind : next.queueDead.find id = some entry) :
    store.queueDead.find id = some entry := by
  rw [enforceDeadLetterBounds_spec henforce] at hfind
  exact Table.find_of_keepNewest hfind

/-- The first entry under an id is made from the job that is moved. -/
theorem entry_deadLetter
    (hmove : store.deadLetter id queue row reason nowMillis policy = .ok next)
    (hfresh : store.queueDead.find id = none) {other : Identity} {entry : DeadRow}
    (hfind : next.queueDead.find other = some entry) :
    store.queueDead.find other = some entry ∨
      (other = id ∧ entry = row.deadRow queue reason nowMillis) := by
  have hinserted := find_enforce hmove hfind
  by_cases hsame : other = id
  · subst hsame
    rw [Table.find_upsert_self, hfresh, Option.elim_none, Option.some.injEq] at hinserted
    exact Or.inr ⟨rfl, hinserted.symm⟩
  · rw [Table.find_upsert_of_ne (Ne.symm hsame)] at hinserted
    exact Or.inl hinserted

/-- The entries after a scan are those before it and those of the jobs that it moved. -/
theorem reserveJobScan_entries {left : ℕ} {delivery : Option JobDelivery}
    {exhausted : List Identity}
    (hscan : reserveJobScan queue policy owner nowMillis left store =
      .ok ((delivery, exhausted), next))
    (hfresh : ∀ id ∈ exhausted, store.queueDead.find id = none) :
    (∀ id ∈ exhausted, ∃ row, store.queueJobs.find id = some row ∧
      row.exhausted queue policy nowMillis = true) ∧
    ∀ id entry, next.queueDead.find id = some entry →
      store.queueDead.find id = some entry ∨
        (id ∈ exhausted ∧ ∃ row, store.queueJobs.find id = some row ∧
          entry = row.deadRow queue exhaustedReason nowMillis) := by
  revert hfresh
  refine (reserveJobScan_induction (motive := fun store exhausted next =>
    (∀ id ∈ exhausted, store.queueDead.find id = none) →
      (∀ id ∈ exhausted, ∃ row, store.queueJobs.find id = some row ∧
        row.exhausted queue policy nowMillis = true) ∧
      ∀ id entry, next.queueDead.find id = some entry →
        store.queueDead.find id = some entry ∨
          (id ∈ exhausted ∧ ∃ row, store.queueJobs.find id = some row ∧
            entry = row.deadRow queue exhaustedReason nowMillis)) ?_ ?_ ?_ hscan).1
  · intro store _
    exact ⟨by simp, fun id entry hfind => Or.inl hfind⟩
  · intro store queueJobs _
    exact ⟨by simp, fun id entry hfind => Or.inl hfind⟩
  · intro store middle next id row rest hfind hrow hmove hstored hmotive hfresh
    have hgone : middle.queueJobs.find id = none := by
      rw [deadLetter_find hmove, Function.update_self]
    have hother : ∀ other ∈ rest, other ≠ id := by
      intro other hmem hsame
      obtain ⟨found, hfound⟩ := hstored other hmem
      rw [hsame, hgone] at hfound
      cases hfound
    obtain ⟨hrows, hentries⟩ := hmotive fun other hmem =>
      absent_deadLetter hmove (hother other hmem) (hfresh other (List.mem_cons_of_mem _ hmem))
    constructor
    · intro other hmem
      rcases List.mem_cons.mp hmem with hfirst | hlater
      · rw [hfirst]
        exact ⟨row, hfind, hrow⟩
      · obtain ⟨found, hfound, hexhausted⟩ := hrows other hlater
        exact ⟨found, find_of_deadLetter hmove hfound, hexhausted⟩
    · intro other entry hentry
      rcases hentries other entry hentry with hmiddle | ⟨hlater, found, hfound, hsame⟩
      · rcases entry_deadLetter hmove (hfresh id List.mem_cons_self) hmiddle with
          hold | ⟨hsame, hnew⟩
        · exact Or.inl hold
        · rw [hsame]
          exact Or.inr ⟨List.mem_cons_self, row, hfind, hnew⟩
      · exact Or.inr ⟨List.mem_cons_of_mem _ hlater, found, find_of_deadLetter hmove hfound, hsame⟩

/-- Cleaning up adds no entry. -/
theorem find_cleanup (hcleanup : store.cleanupDeadLetters queue policy nowMillis = .ok next)
    {entry : DeadRow} (hfind : next.queueDead.find id = some entry) :
    store.queueDead.find id = some entry := by
  unfold cleanupDeadLetters at hcleanup
  simp only [Result.bind_eq_ok] at hcleanup
  obtain ⟨_, -, _, -, henforce⟩ := hcleanup
  have hkept := find_enforce henforce hfind
  rw [Table.find_delete, Option.filter_eq_some_iff] at hkept
  exact hkept.1

end Entries

section Step

variable {store : Store}

/-- A reservation moves its exhausted jobs, and adds no other entry. -/
theorem reserveJob_places {next : Store} {queue : String} {policy : QueuePolicy}
    {owner : Identity} {nowMillis : ℤ} {delivery : Option JobDelivery} {exhausted : List Identity}
    (hreserve : store.reserveJob queue policy owner nowMillis = .ok ((delivery, exhausted), next))
    (hfresh : ∀ id row, store.queueJobs.find id = some row → store.queueDead.find id = none) :
    JobsEffect store.queueJobs next.queueJobs [] [] exhausted (deliveryLeases delivery) ∧
    (∀ id ∈ exhausted, ∃ row : JobRow,
      Moves store next (.reserveJob queue policy owner nowMillis) id
        (row.deadRow queue exhaustedReason nowMillis)) ∧
    ∀ id entry, next.queueDead.find id = some entry → store.queueDead.find id = some entry ∨
      Moves store next (.reserveJob queue policy owner nowMillis) id entry := by
  have heffect : JobsEffect store.queueJobs next.queueJobs [] [] exhausted
      (deliveryLeases delivery) := by
    obtain ⟨queueDead, hscan⟩ := reserveJob_eq_ok hreserve
    have hcleaned := reserveJobScan_jobsEffect hscan
    exact hcleaned
  obtain ⟨-, hkeeps, -⟩ := reserveJob_moves hreserve
  unfold reserveJob at hreserve
  simp only [Result.bind_eq_ok] at hreserve
  obtain ⟨_, -, _, -, _, -, cleaned, hcleanup, hscan⟩ := hreserve
  obtain ⟨hjobs, -, habsent, -⟩ := cleanupDeadLetters_spec hcleanup
  obtain ⟨hrows, hentries⟩ := reserveJobScan_entries hscan fun id hid => by
    obtain ⟨row, hrow, -⟩ := hkeeps id hid
    exact habsent id (hfresh id row hrow)
  rw [hjobs] at hrows hentries
  have hmoves : ∀ id ∈ exhausted, ∀ row, store.queueJobs.find id = some row →
      Moves store next (.reserveJob queue policy owner nowMillis) id
        (row.deadRow queue exhaustedReason nowMillis) := by
    intro id hid row hfind
    obtain ⟨found, hfound, hexhausted⟩ := hrows id hid
    obtain ⟨moved, hmoved, entry, -, -, -, hown, hkept⟩ := hkeeps id hid
    rw [hfind, Option.some.injEq] at hfound hmoved
    subst hfound hmoved
    rw [hown (hfresh id row hfind)] at hkept
    exact Moves.reserved hfind hexhausted (heffect.gone hid) hkept
  refine ⟨heffect, ?_, ?_⟩
  · intro id hid
    obtain ⟨row, hfind, -⟩ := hrows id hid
    exact ⟨row, hmoves id hid row hfind⟩
  · intro id entry hentry
    rcases hentries id entry hentry with hold | ⟨hid, row, hfind, hsame⟩
    · exact Or.inl (find_cleanup hcleanup hold)
    · rw [hsame]
      exact Or.inr (hmoves id hid row hfind)

/-- A failure moves the job of its lease, and adds no other entry. -/
theorem failJob_places {next : Store} {lease : JobLease} {reason : String} {policy : QueuePolicy}
    {nowMillis : ℤ} {disposition : JobDisposition}
    (hfail : store.failJob lease reason policy nowMillis = .ok (disposition, next))
    (hfresh : ∀ id row, store.queueJobs.find id = some row → store.queueDead.find id = none) :
    ∃ moved, JobsEffect store.queueJobs next.queueJobs [] [] moved [] ∧
      (∀ id ∈ moved, ∃ entry, Moves store next (.failJob lease reason policy nowMillis) id entry) ∧
      ∀ id entry, next.queueDead.find id = some entry → store.queueDead.find id = some entry ∨
        Moves store next (.failJob lease reason policy nowMillis) id entry := by
  have heffect := failJob_jobsEffect hfail
  refine ⟨_, heffect, ?_⟩
  rcases failJob_eq_ok hfail with ⟨-, hlost, hnext⟩ |
    ⟨row, hfind, howns, hexhausted, hdead, hmove⟩ |
    ⟨row, visibleAt, -, -, -, -, hretried, hnext⟩
  · rw [hlost, hnext]
    exact ⟨by simp, fun id entry hentry => Or.inl hentry⟩
  · rw [hdead, if_pos rfl] at heffect ⊢
    obtain ⟨entry, -, -, -, hown, hkept⟩ := keepsJob_deadLetter hmove
    rw [hown (hfresh _ row hfind)] at hkept
    have hmoves := Moves.failed hfind howns hexhausted
      (heffect.gone (List.mem_singleton_self _)) hkept
    constructor
    · intro id hid
      rw [List.mem_singleton.mp hid]
      exact ⟨_, hmoves⟩
    · intro id entry hentry
      rcases entry_deadLetter hmove (hfresh _ row hfind) hentry with hold | ⟨hid, hsame⟩
      · exact Or.inl hold
      · rw [hid, hsame]
        exact Or.inr hmoves
  · rw [hretried, hnext]
    exact ⟨by simp, fun id entry hentry => Or.inl hentry⟩

/-- A transaction of another kind changes no dead letter. -/
theorem step_queueDead (store : Store) (call : Call) (harea : call.area ≠ .jobs) :
    (store.step call).2.queueDead = store.queueDead := by
  have hframe := store.step_frame call
  cases harea' : call.area with
  | jobs => exact absurd harea' harea
  | outcome =>
    rw [harea'] at hframe
    obtain ⟨_, _, _, _, _, _, _, hnext⟩ := hframe
    rw [hnext]
  | schedules =>
    rw [harea'] at hframe
    obtain ⟨_, _, hnext⟩ := hframe
    rw [hnext]
  | replay =>
    rw [harea'] at hframe
    obtain ⟨_, hnext⟩ := hframe
    rw [hnext]
    rfl
  | idempotency =>
    rw [harea'] at hframe
    obtain ⟨_, hnext⟩ := hframe
    rw [hnext]
    rfl

/-- What one call does to the jobs and to the dead letters: the jobs that it moves are
those that leave the queue without an acknowledgement. -/
theorem step_places (store : Store) (call : Call)
    (hfresh : ∀ id row, store.queueJobs.find id = some row → store.queueDead.find id = none) :
    ∃ moved, JobsEffect store.queueJobs (store.step call).2.queueJobs
        (publishedBy (call, (store.step call).1)) (acknowledgedBy (call, (store.step call).1))
        moved (deliveredBy (call, (store.step call).1)) ∧
      (∀ id, id ∈ moved ↔ ∃ entry, Moves store (store.step call).2 call id entry) ∧
      ∀ id entry, (store.step call).2.queueDead.find id = some entry →
        store.queueDead.find id = some entry ∨ Moves store (store.step call).2 call id entry := by
  by_cases harea : call.area = .jobs
  · cases call with
    | reserveJob queue policy owner now =>
      rw [step]
      cases hreserve : store.reserveJob queue policy owner now with
      | error error =>
        refine ⟨[], JobsEffect.refl _, ?_, fun id entry hentry => Or.inl hentry⟩
        intro id
        refine ⟨fun hid => (by cases hid), ?_⟩
        rintro ⟨entry, hmoves⟩
        cases hmoves with
        | reserved hqueued _ hgone _ =>
          rw [answer] at hgone
          rw [hqueued] at hgone
          cases hgone
      | ok result =>
        obtain ⟨⟨delivery, exhausted⟩, next⟩ := result
        obtain ⟨heffect, hmoves, hentries⟩ := reserveJob_places hreserve hfresh
        refine ⟨exhausted, ?_, ?_, hentries⟩
        · cases delivery with
          | none => exact heffect
          | some delivery => exact heffect
        · intro id
          refine ⟨fun hid => ?_, ?_⟩
          · obtain ⟨row, hrow⟩ := hmoves id hid
            exact ⟨_, hrow⟩
          · rintro ⟨entry, hmove⟩
            cases hmove with
            | reserved hqueued _ hgone _ => exact heffect.moved_of_gone hqueued hgone
    | failJob lease reason policy now =>
      rw [step]
      cases hfail : store.failJob lease reason policy now with
      | error error =>
        refine ⟨[], JobsEffect.refl _, ?_, fun id entry hentry => Or.inl hentry⟩
        intro id
        refine ⟨fun hid => (by cases hid), ?_⟩
        rintro ⟨entry, hmoves⟩
        cases hmoves with
        | failed hqueued _ _ hgone _ =>
          rw [answer, hqueued] at hgone
          cases hgone
      | ok result =>
        obtain ⟨disposition, next⟩ := result
        obtain ⟨moved, heffect, hmoves, hentries⟩ := failJob_places hfail hfresh
        refine ⟨moved, ?_, ?_, hentries⟩
        · cases disposition with
          | retried visibleAt => exact heffect
          | deadLettered => exact heffect
          | lost => exact heffect
        · intro id
          refine ⟨hmoves id, ?_⟩
          rintro ⟨entry, hmove⟩
          cases hmove with
          | failed hqueued _ _ hgone _ => exact heffect.moved_of_gone hqueued hgone
    | _ => cases harea
  · refine ⟨[], store.step_jobsEffect call harea, ?_, ?_⟩
    · intro id
      refine ⟨fun hid => (by cases hid), ?_⟩
      rintro ⟨entry, hmoves⟩
      cases hmoves with
      | reserved => exact absurd rfl harea
      | failed => exact absurd rfl harea
    · intro id entry hentry
      rw [store.step_queueDead call harea] at hentry
      exact Or.inl hentry

/-- An entry whose job is not in the queue stays, or the call prunes it. -/
theorem step_keeps_entry (store : Store) (call : Call) {id : Identity} {entry : DeadRow}
    (hentry : store.queueDead.find id = some entry) (hgone : store.queueJobs.find id = none) :
    (store.step call).2.queueDead.find id = some entry ∨ Prunes (store.step call).2 entry call := by
  by_cases harea : call.area = .jobs
  · cases call with
    | reserveJob queue policy owner now =>
      rw [step]
      cases hreserve : store.reserveJob queue policy owner now with
      | error error => exact Or.inl hentry
      | ok result =>
        obtain ⟨⟨delivery, exhausted⟩, next⟩ := result
        obtain ⟨-, hmoved, hkeeps⟩ := reserveJob_moves hreserve
        have hnot : id ∉ exhausted := by
          intro hid
          obtain ⟨row, hrow, -⟩ := hmoved id hid
          rw [hgone] at hrow
          cases hrow
        by_cases hexpired : entry.queue = queue ∧
            entry.failedAt ≤ now - policy.deadLetterTtl.asMillis
        · obtain ⟨hqueue, hold⟩ := hexpired
          subst hqueue
          exact Or.inr (Prunes.expired hold)
        · rcases hkeeps id entry hentry hnot hexpired with hstays | ⟨hqueue, hfull⟩
          · exact Or.inl hstays
          · subst hqueue
            exact Or.inr (Prunes.reserved hfull)
    | failJob lease reason policy now =>
      rw [step]
      cases hfail : store.failJob lease reason policy now with
      | error error => exact Or.inl hentry
      | ok result =>
        obtain ⟨disposition, next⟩ := result
        rcases failJob_eq_ok hfail with ⟨-, -, hnext⟩ | ⟨row, hfind, -, -, -, hmove⟩ |
          ⟨row, visibleAt, -, -, -, -, -, hnext⟩
        · rw [hnext]
          exact Or.inl hentry
        · have hother : id ≠ lease.id := by
            intro hsame
            rw [hsame, hfind] at hgone
            cases hgone
          rcases keeps_deadLetter hmove hother hentry with hstays | ⟨hqueue, hfull⟩
          · exact Or.inl hstays
          · rw [← hqueue] at hfull
            exact Or.inr (Prunes.failed hqueue.symm hfull)
        · rw [hnext]
          exact Or.inl hentry
    | _ => cases harea
  · rw [store.step_queueDead call harea]
    exact Or.inl hentry

end Step

end Store

/-! ## Every run -/

theorem run_append_singleton (store : Store) (calls : List Call) (call : Call) :
    run store (calls ++ [call]) = ((run store calls).step call).2 :=
  History.run_append Store.step store calls [call]

theorem history_append_singleton (store : Store) (calls : List Call) (call : Call) :
    history store (calls ++ [call]) =
      history store calls ++ [(call, ((run store calls).step call).1)] :=
  History.history_append Store.step store calls [call]

theorem published_append (past more : List (Call × Reply)) :
    published (past ++ more) = published past ++ published more :=
  List.flatMap_append

theorem acknowledged_append (past more : List (Call × Reply)) :
    acknowledged (past ++ more) = acknowledged past ++ acknowledged more :=
  List.flatMap_append

theorem delivered_append (past more : List (Call × Reply)) :
    delivered (past ++ more) = delivered past ++ delivered more :=
  List.flatMap_append

/-- The last call of a run moved a job, or an earlier one did. -/
theorem deadLettered_append_iff {limits : StoreLimits} {calls : List Call} {call : Call}
    {id : Identity} {entry : DeadRow} :
    DeadLettered limits (calls ++ [call]) id entry ↔ DeadLettered limits calls id entry ∨
      Moves (run (Store.open limits) calls) (run (Store.open limits) (calls ++ [call])) call id
        entry := by
  constructor
  · rintro ⟨earlier, moving, later, hcalls, hmoves⟩
    rcases List.eq_nil_or_concat later with hlast | ⟨rest, last, hlater⟩
    · rw [hlast] at hcalls
      obtain ⟨hsame, hcall⟩ := List.append_inj' hcalls rfl
      rw [List.cons.injEq] at hcall
      rw [hsame, hcall.1]
      exact Or.inr hmoves
    · rw [hlater, List.concat_eq_append, ← List.cons_append, ← List.append_assoc] at hcalls
      obtain ⟨hsame, -⟩ := List.append_inj' hcalls rfl
      exact Or.inl ⟨earlier, moving, rest, hsame, hmoves⟩
  · rintro (⟨earlier, moving, later, hcalls, hmoves⟩ | hmoves)
    · refine ⟨earlier, moving, later ++ [call], ?_, hmoves⟩
      rw [hcalls, List.append_assoc, List.cons_append]
    · exact ⟨calls, call, [], rfl, hmoves⟩

/-- What every run of a new store has done: each published job is in the queue,
acknowledged or moved, every dead letter is one that was moved, and a job that is owned is
owned under the last of its deliveries. -/
structure QueueInvariant (limits : StoreLimits) (calls : List Call) : Prop where
  conserved : ∃ moved, (published (history (Store.open limits) calls)).Perm
      ((run (Store.open limits) calls).queueJobs.keys ++
        (acknowledged (history (Store.open limits) calls)).map JobLease.id ++ moved) ∧
    ∀ id, id ∈ moved ↔ ∃ entry, DeadLettered limits calls id entry
  entries : ∀ id entry, (run (Store.open limits) calls).queueDead.find id = some entry →
    DeadLettered limits calls id entry
  latest : ∀ id row owner, (run (Store.open limits) calls).queueJobs.find id = some row →
    row.owner = some owner → ∃ earlier later,
      delivered (history (Store.open limits) calls) = earlier ++ ⟨id, row.queue, owner⟩ :: later ∧
        ∀ lease ∈ later, lease.id ≠ id
  acknowledges : ∀ lease ∈ acknowledged (history (Store.open limits) calls),
    lease ∈ delivered (history (Store.open limits) calls)

namespace QueueInvariant

variable {limits : StoreLimits} {calls : List Call}

/-- A job that was moved is not in the queue, and was not acknowledged. -/
theorem apart (hinvariant : QueueInvariant limits calls)
    (hnodup : (published (history (Store.open limits) calls)).Nodup) {id : Identity}
    {entry : DeadRow} (hmoved : DeadLettered limits calls id entry) :
    id ∉ (run (Store.open limits) calls).queueJobs.keys ∧
      id ∉ (acknowledged (history (Store.open limits) calls)).map JobLease.id := by
  obtain ⟨moved, hconserved, hmem⟩ := hinvariant.conserved
  have hapart := (List.nodup_append.mp (hconserved.nodup_iff.mp hnodup)).2.2
  have hid := (hmem id).mpr ⟨entry, hmoved⟩
  exact ⟨fun hkey => hapart id (List.mem_append_left _ hkey) id hid rfl,
    fun hkey => hapart id (List.mem_append_right _ hkey) id hid rfl⟩

/-- There is no dead letter of a job that is in the queue. -/
theorem fresh (hinvariant : QueueInvariant limits calls)
    (hnodup : (published (history (Store.open limits) calls)).Nodup) {id : Identity}
    {row : JobRow} (hfind : (run (Store.open limits) calls).queueJobs.find id = some row) :
    (run (Store.open limits) calls).queueDead.find id = none := by
  rw [Option.eq_none_iff_forall_not_mem]
  intro entry hentry
  refine (hinvariant.apart hnodup (hinvariant.entries id entry hentry)).1 ?_
  rw [Table.mem_keys_iff, hfind]
  exact Option.some_ne_none row

theorem «open» (limits : StoreLimits) : QueueInvariant limits [] where
  conserved := by
    refine ⟨[], List.Perm.nil, ?_⟩
    intro id
    refine ⟨fun hid => (by cases hid), ?_⟩
    rintro ⟨entry, earlier, moving, later, hcalls, -⟩
    exact absurd hcalls.symm (List.append_ne_nil_of_right_ne_nil _ (List.cons_ne_nil _ _))
  entries := by
    intro id entry hfind
    cases hfind
  latest := by
    intro id row owner hfind
    cases hfind
  acknowledges := by
    intro lease hlease
    cases hlease

theorem step (hinvariant : QueueInvariant limits calls)
    (hnodup : (published (history (Store.open limits) calls)).Nodup) (call : Call) :
    QueueInvariant limits (calls ++ [call]) := by
  obtain ⟨movedNow, heffect, hmovedNow, hentries⟩ :=
    (run (Store.open limits) calls).step_places call fun _ _ hfind => hinvariant.fresh hnodup hfind
  obtain ⟨moved, hconserved, hmoved⟩ := hinvariant.conserved
  have hrun := run_append_singleton (Store.open limits) calls call
  have hhistory := history_append_singleton (Store.open limits) calls call
  have hpublished : published (history (Store.open limits) (calls ++ [call])) =
      published (history (Store.open limits) calls) ++
        publishedBy (call, ((run (Store.open limits) calls).step call).1) := by
    rw [hhistory, published_append, published, published, List.flatMap_singleton]
  have hacknowledged : acknowledged (history (Store.open limits) (calls ++ [call])) =
      acknowledged (history (Store.open limits) calls) ++
        acknowledgedBy (call, ((run (Store.open limits) calls).step call).1) := by
    rw [hhistory, acknowledged_append, acknowledged, acknowledged, List.flatMap_singleton]
  have hdelivered : delivered (history (Store.open limits) (calls ++ [call])) =
      delivered (history (Store.open limits) calls) ++
        deliveredBy (call, ((run (Store.open limits) calls).step call).1) := by
    rw [hhistory, delivered_append, delivered, delivered, List.flatMap_singleton]
  constructor
  · refine ⟨moved ++ movedNow, ?_, ?_⟩
    · rw [hpublished, hacknowledged, hrun, List.map_append]
      have hnow := heffect.conserved
      rw [← Multiset.coe_eq_coe] at hconserved hnow ⊢
      simp only [← Multiset.coe_add] at hconserved hnow ⊢
      rw [hconserved]
      calc _ = (↑(run (Store.open limits) calls).queueJobs.keys +
              ↑(publishedBy (call, ((run (Store.open limits) calls).step call).1))) +
            (↑((acknowledged (history (Store.open limits) calls)).map JobLease.id) +
              ↑moved : Multiset Identity) := by abel
        _ = _ := by
          rw [hnow]
          abel
    · intro id
      rw [List.mem_append, hmoved id, hmovedNow id, ← exists_or, ← hrun]
      exact exists_congr fun entry => deadLettered_append_iff.symm
  · intro id entry hfind
    rw [hrun] at hfind
    rw [deadLettered_append_iff, hrun]
    rcases hentries id entry hfind with hold | hmoves
    · exact Or.inl (hinvariant.entries id entry hold)
    · exact Or.inr hmoves
  · intro id row owner hfind howner
    rw [hrun] at hfind
    rw [hdelivered]
    rcases heffect.owned id row owner hfind howner with hnew | ⟨hothers, old, hold, hsame, hqueue⟩
    · rw [hnew]
      exact ⟨delivered (history (Store.open limits) calls), [], rfl, by simp⟩
    · obtain ⟨earlier, later, hsplit, hlater⟩ := hinvariant.latest id old owner hold hsame
      refine ⟨earlier, later ++ deliveredBy (call, ((run (Store.open limits) calls).step call).1),
        ?_, ?_⟩
      · rw [hsplit, hqueue, List.append_assoc, List.cons_append]
      · intro lease hlease
        rcases List.mem_append.mp hlease with hearly | hlast
        · exact hlater lease hearly
        · exact hothers lease hlast
  · intro lease hlease
    rw [hacknowledged] at hlease
    rw [hdelivered]
    rcases List.mem_append.mp hlease with hearly | hlast
    · exact List.mem_append_left _ (hinvariant.acknowledges lease hearly)
    · obtain ⟨old, hold, howner, hqueue⟩ := heffect.acknowledges lease hlast
      obtain ⟨earlier, later, hsplit, -⟩ := hinvariant.latest lease.id old lease.owner hold howner
      rw [hsplit, hqueue]
      exact List.mem_append_left _ (by simp)

end QueueInvariant

theorem published_nodup_of_append {limits : StoreLimits} {calls more : List Call}
    (hnodup : (published (history (Store.open limits) (calls ++ more))).Nodup) :
    (published (history (Store.open limits) calls)).Nodup := by
  have hhistory : history (Store.open limits) (calls ++ more) =
      history (Store.open limits) calls ++ history (run (Store.open limits) calls) more :=
    History.history_append Store.step (Store.open limits) calls more
  rw [hhistory, published_append] at hnodup
  exact (List.nodup_append.mp hnodup).1

theorem queueInvariant (limits : StoreLimits) (calls : List Call)
    (hnodup : (published (history (Store.open limits) calls)).Nodup) :
    QueueInvariant limits calls := by
  -- the induction is on the end of the run, where the last call is
  induction calls using List.reverseRecOn with
  | nil => exact QueueInvariant.open limits
  | append_singleton calls call ih =>
    have hbefore := published_nodup_of_append hnodup
    exact (ih hbefore).step hbefore call

/-- The entry of a job that was moved is among the dead letters, or the transaction that
moved it or a later one has pruned it. -/
theorem deadLetter_stays_or_pruned {limits : StoreLimits} {earlier later : List Call} {call : Call}
    {id : Identity} {entry : DeadRow}
    (hnodup : (published (history (Store.open limits) (earlier ++ call :: later))).Nodup)
    (hmoves : Moves (run (Store.open limits) earlier) (run (Store.open limits) (earlier ++ [call]))
      call id entry) :
    (run (Store.open limits) (earlier ++ call :: later)).queueDead.find id = some entry ∨
      ∃ between pruning rest, call :: later = between ++ pruning :: rest ∧
        Prunes (run (Store.open limits) (earlier ++ between ++ [pruning])) entry pruning := by
  induction later using List.reverseRecOn with
  | nil =>
    cases hmoves with
    | reserved hqueued hexhausted hgone hentry =>
      rcases hentry with hfind | ⟨-, hfull⟩
      · exact Or.inl hfind
      · refine Or.inr ⟨[], _, [], rfl, ?_⟩
        rw [List.append_nil]
        exact Prunes.reserved hfull
    | failed hqueued howns hexhausted hgone hentry =>
      rcases hentry with hfind | ⟨-, hfull⟩
      · exact Or.inl hfind
      · refine Or.inr ⟨[], _, [], rfl, ?_⟩
        rw [List.append_nil]
        exact Prunes.failed rfl hfull
  | append_singleton later last ih =>
    have hsplit : earlier ++ call :: (later ++ [last]) = earlier ++ call :: later ++ [last] := by
      rw [← List.cons_append, ← List.append_assoc]
    rw [hsplit] at hnodup ⊢
    have hbefore := published_nodup_of_append hnodup
    rcases ih hbefore with hfind | ⟨between, pruning, rest, hbetween, hprunes⟩
    · have hmoved : DeadLettered limits (earlier ++ call :: later) id entry :=
        ⟨earlier, call, later, rfl, hmoves⟩
      have hgone := ((queueInvariant limits _ hbefore).apart hbefore hmoved).1
      rw [Table.mem_keys_iff, not_not] at hgone
      rw [run_append_singleton]
      rcases (run (Store.open limits) (earlier ++ call :: later)).step_keeps_entry last hfind
        hgone with hstays | hprunes
      · exact Or.inl hstays
      · refine Or.inr ⟨call :: later, last, [], rfl, ?_⟩
        rw [run_append_singleton]
        exact hprunes
    · refine Or.inr ⟨between, pruning, rest ++ [last], ?_, hprunes⟩
      rw [← List.cons_append, hbetween, List.append_assoc, List.cons_append]

/-! ## Leases that were replaced -/

/-- A delivery after which its job was delivered again. -/
def Replaced (past : List (Call × Reply)) (lease : JobLease) : Prop :=
  ∃ before between after other, delivered past = before ++ lease :: between ++ other :: after ∧
    other.id = lease.id

/-- A lease that was replaced owns nothing. -/
theorem QueueInvariant.not_owned {limits : StoreLimits} {calls : List Call}
    (hinvariant : QueueInvariant limits calls)
    (hnodup : ((delivered (history (Store.open limits) calls)).map JobLease.owner).Nodup)
    {lease : JobLease} (hreplaced : Replaced (history (Store.open limits) calls) lease) :
    ∀ id row, (run (Store.open limits) calls).queueJobs.find id = some row →
      lease.owns id row = false := by
  intro id row hfind
  rw [← Bool.not_eq_true]
  intro howns
  obtain ⟨hid, -, howner⟩ := JobLease.owns_iff.mp howns
  obtain ⟨before, between, after, other, hreplace, hsame⟩ := hreplaced
  obtain ⟨earlier, later, hsplit, hlater⟩ := hinvariant.latest id row lease.owner hfind howner
  rw [List.append_assoc, List.cons_append] at hreplace
  have hnodup' := hnodup
  rw [hreplace] at hnodup' hsplit
  have hrest := Keyed.split_unique hnodup' hsplit rfl
  have hmem : other ∈ later := by
    rw [← hrest]
    simp
  exact hlater other hmem (hsame.trans hid.symm)

/-! ## Conservation and fencing -/

/-- In every run in which published identities and the owners of deliveries are new,
each published job is in exactly one place, the entry of a job that was moved is among
the dead letters until it is pruned, and nothing else is among them; at most one commit
acknowledges a job, and a lease that was replaced neither acknowledges nor fails its job. -/
theorem deliveries_conserved_and_fenced (limits : StoreLimits) (calls : List Call)
    (hpublished : (published (history (Store.open limits) calls)).Nodup)
    (howners : ((delivered (history (Store.open limits) calls)).map JobLease.owner).Nodup) :
    (∀ id ∈ published (history (Store.open limits) calls),
      (id ∈ (run (Store.open limits) calls).queueJobs.keys ∧
        id ∉ (acknowledged (history (Store.open limits) calls)).map JobLease.id ∧
        ¬ ∃ entry, DeadLettered limits calls id entry) ∨
      (id ∉ (run (Store.open limits) calls).queueJobs.keys ∧
        id ∈ (acknowledged (history (Store.open limits) calls)).map JobLease.id ∧
        ¬ ∃ entry, DeadLettered limits calls id entry) ∨
      (id ∉ (run (Store.open limits) calls).queueJobs.keys ∧
        id ∉ (acknowledged (history (Store.open limits) calls)).map JobLease.id ∧
        ∃ entry, DeadLettered limits calls id entry)) ∧
    (∀ earlier call later id entry, calls = earlier ++ call :: later →
      Moves (run (Store.open limits) earlier) (run (Store.open limits) (earlier ++ [call])) call id
        entry →
      (run (Store.open limits) calls).queueDead.find id = some entry ∨
        ∃ between pruning rest, call :: later = between ++ pruning :: rest ∧
          Prunes (run (Store.open limits) (earlier ++ between ++ [pruning])) entry pruning) ∧
    (∀ id entry, (run (Store.open limits) calls).queueDead.find id = some entry →
      DeadLettered limits calls id entry) ∧
    ((acknowledged (history (Store.open limits) calls)).map JobLease.id).Nodup ∧
    (∀ lease ∈ acknowledged (history (Store.open limits) calls),
      lease ∈ delivered (history (Store.open limits) calls)) ∧
    ∀ lease, Replaced (history (Store.open limits) calls) lease →
      (∀ plan : CommitPlan, plan.completion = some (.job lease) →
        (∃ error, (run (Store.open limits) calls).step (.commitPlan plan) =
          (.refused error, run (Store.open limits) calls)) ∧
        ∀ result, (run (Store.open limits) calls).commitPlan { plan with completion := none } =
            .ok result →
          (run (Store.open limits) calls).step (.commitPlan plan) =
            (.refused staleJobLease, run (Store.open limits) calls)) ∧
      ∀ reason policy nowMillis,
        ((run (Store.open limits) calls).step (.failJob lease reason policy nowMillis) =
            (.failed .lost, run (Store.open limits) calls) ∨
          ∃ error, (run (Store.open limits) calls).step (.failJob lease reason policy nowMillis) =
            (.refused error, run (Store.open limits) calls)) ∧
        (policy.validate = .ok () →
          preflightInstants nowMillis [policy.lease, policy.maxBackoff, policy.deadLetterTtl] =
            .ok () →
          (run (Store.open limits) calls).step (.failJob lease reason policy nowMillis) =
            (.failed .lost, run (Store.open limits) calls)) := by
  have hinvariant := queueInvariant limits calls hpublished
  obtain ⟨moved, hconserved, hmoved⟩ := hinvariant.conserved
  have hplaces := hconserved.nodup_iff.mp hpublished
  obtain ⟨hqueued, -, -⟩ := List.nodup_append.mp hplaces
  obtain ⟨-, hacknowledgedNodup, hqueuedApart⟩ := List.nodup_append.mp hqueued
  refine ⟨?_, ?_, hinvariant.entries, hacknowledgedNodup, hinvariant.acknowledges, ?_⟩
  · intro id hid
    have hplace := hconserved.mem_iff.mp hid
    rw [List.mem_append, List.mem_append, hmoved id] at hplace
    by_cases hdead : ∃ entry, DeadLettered limits calls id entry
    · obtain ⟨entry, hentry⟩ := hdead
      obtain ⟨hkeys, hacknowledged⟩ := hinvariant.apart hpublished hentry
      exact Or.inr (Or.inr ⟨hkeys, hacknowledged, entry, hentry⟩)
    · rcases hplace with (hkeys | hacknowledged) | hentry
      · exact Or.inl ⟨hkeys, fun hmem => hqueuedApart id hkeys id hmem rfl, hdead⟩
      · exact Or.inr (Or.inl ⟨fun hmem => hqueuedApart id hmem id hacknowledged rfl,
          hacknowledged, hdead⟩)
      · exact absurd hentry hdead
  · intro earlier call later id entry hcalls hmoves
    subst hcalls
    exact deadLetter_stays_or_pruned hpublished hmoves
  · intro lease hreplaced
    have hnone := hinvariant.not_owned howners hreplaced
    constructor
    · intro plan hcompletion
      obtain ⟨⟨error, hrefused⟩, hstale⟩ := Store.commitPlan_of_not_owned hcompletion hnone
      constructor
      · refine ⟨error, ?_⟩
        rw [Store.step, hrefused]
        rfl
      · intro result hresult
        rw [Store.step, hstale result hresult]
        rfl
    · intro reason policy nowMillis
      obtain ⟨hlost, hvalid⟩ := Store.failJob_of_not_owned hnone reason policy nowMillis
      constructor
      · rcases hlost with hlost | ⟨error, hrefused⟩
        · left
          rw [Store.step, hlost]
          rfl
        · right
          refine ⟨error, ?_⟩
          rw [Store.step, hrefused]
          rfl
      · intro hpolicy hinstants
        rw [Store.step, hvalid hpolicy hinstants]
        rfl

/-- Two jobs are published.  The first is delivered again after its lease, and fails with
the last attempt that its queue allows; the second is acknowledged. -/
def samplePlaceCalls : List Call :=
  [.commitPlan
      { expectedRevision := 0
        mutations := [.queuePublish "work" 7 [1, 2, 3], .queuePublish "work" 8 [4]]
        queues := TreeMap.ofList [("work", { sampleQueuePolicy with maxAttempts := 2 })]
        buckets := ∅
        nowMillis := 0
        completion := none },
    .reserveJob "work" { sampleQueuePolicy with maxAttempts := 2 } 100 10,
    .reserveJob "work" { sampleQueuePolicy with maxAttempts := 2 } 101 2000,
    .reserveJob "work" { sampleQueuePolicy with maxAttempts := 2 } 102 2000,
    .failJob ⟨7, "work", 101⟩ "broken" { sampleQueuePolicy with maxAttempts := 2 } 2010,
    .commitPlan
      { expectedRevision := 1
        mutations := []
        queues := ∅
        buckets := ∅
        nowMillis := 2020
        completion := some (.job ⟨8, "work", 102⟩) }]

/-- The entry that the first job leaves among the dead letters. -/
def sampleDeadRow : DeadRow :=
  { queue := "work"
    sequence := 1
    body := [1, 2, 3]
    attempts := 2
    reason := "broken"
    sizeBytes := 3
    failedAt := 2010 }

theorem deliveries_conserved_and_fenced_sample :
    published (history (Store.open sampleLimits) samplePlaceCalls) = [7, 8] ∧
    DeadLettered sampleLimits samplePlaceCalls 7 sampleDeadRow ∧
    (run (Store.open sampleLimits) samplePlaceCalls).queueDead.find 7 = some sampleDeadRow ∧
    8 ∈ (acknowledged (history (Store.open sampleLimits) samplePlaceCalls)).map JobLease.id ∧
    (¬ ∃ entry, DeadLettered sampleLimits samplePlaceCalls 8 entry) ∧
    Replaced (history (Store.open sampleLimits) samplePlaceCalls) ⟨7, "work", 100⟩ ∧
    (run (Store.open sampleLimits) samplePlaceCalls).step
        (.failJob ⟨7, "work", 100⟩ "too late" sampleQueuePolicy 3000) =
      (.failed .lost, run (Store.open sampleLimits) samplePlaceCalls) := by
  have hdelivered : delivered (history (Store.open sampleLimits) samplePlaceCalls) =
      [⟨7, "work", 100⟩, ⟨7, "work", 101⟩, ⟨8, "work", 102⟩] := by
    decide +kernel
  have hpublished : published (history (Store.open sampleLimits) samplePlaceCalls) = [7, 8] := by
    decide +kernel
  have hkeys : (run (Store.open sampleLimits) samplePlaceCalls).queueJobs.keys = [] := by
    decide +kernel
  have hentry : (run (Store.open sampleLimits) samplePlaceCalls).queueDead.find 7 =
      some sampleDeadRow := by
    decide +kernel
  have hacknowledged : (acknowledged (history (Store.open sampleLimits) samplePlaceCalls)).map
      JobLease.id = [8] := by
    decide +kernel
  have hfresh : (published (history (Store.open sampleLimits) samplePlaceCalls)).Nodup := by
    rw [hpublished]
    decide
  have howners : ((delivered (history (Store.open sampleLimits) samplePlaceCalls)).map
      JobLease.owner).Nodup := by
    rw [hdelivered]
    decide
  have hreplaced : Replaced (history (Store.open sampleLimits) samplePlaceCalls)
      ⟨7, "work", 100⟩ :=
    ⟨[], [], [⟨8, "work", 102⟩], ⟨7, "work", 101⟩, hdelivered, rfl⟩
  obtain ⟨hplaces, -, hentries, -, -, hfenced⟩ :=
    deliveries_conserved_and_fenced sampleLimits samplePlaceCalls hfresh howners
  have hsecond : 8 ∈ (acknowledged (history (Store.open sampleLimits) samplePlaceCalls)).map
      JobLease.id := by
    rw [hacknowledged]
    exact List.mem_singleton_self _
  refine ⟨hpublished, hentries 7 sampleDeadRow hentry, hentry, hsecond, ?_, hreplaced, ?_⟩
  · rcases hplaces 8 (by rw [hpublished]; decide) with ⟨hkey, -⟩ | ⟨-, -, hnone⟩ | ⟨-, hnot, -⟩
    · rw [hkeys] at hkey
      cases hkey
    · exact hnone
    · exact absurd hsecond hnot
  · exact ((hfenced _ hreplaced).2 "too late" sampleQueuePolicy 3000).2
      (Result.eq_ok_of_toBool (by decide +kernel)) (Result.eq_ok_of_toBool (by decide +kernel))

end Krit.Durable
