import Krit.StoreRuns

/-!
# The protocol of replay and idempotency records

The calls on a table of records that were accepted are its events.  A record that is
undecided is owned by the last lease that was issued for it, and a lease that is
completed, aborted or replaced owns nothing; a completed record stays until it
expires or is evicted.  The replay and the idempotency table follow the protocol for
the same reason, so it is stated and proved once, for a table given by its calls.
-/

namespace Krit.Durable

open Machine Std History

/-! ## Events -/

/-- An accepted call on a table of records. -/
inductive Event (κ : Type) where
  | decided (key : κ) (digest owner : Bytes) (nowMillis : ℤ) (policy : RetentionPolicy)
      (decision : Except StateError (Decision κ))
  | completed (lease : Lease κ) (result : Bytes) (nowMillis : ℤ) (policy : RetentionPolicy)
      (evicted : List κ)
  | aborted (lease : Lease κ)

namespace Event

variable {κ : Type}

/-- The lease that a decision issues. -/
def issued : Event κ → Option (Lease κ)
  | .decided _ _ _ _ _ (.ok (.execute lease)) => some lease
  | _ => none

/-- The instant of a decision. -/
def instant : Event κ → Option ℤ
  | .decided _ _ _ nowMillis _ _ => some nowMillis
  | _ => none

def evicted : Event κ → List κ
  | .completed _ _ _ _ evicted => evicted
  | _ => []

/-- A decision issues a lease until a deadline. -/
def Issues (lease : Lease κ) (deadline : ℤ) : Event κ → Prop
  | .decided _ _ _ nowMillis policy (.ok (.execute own)) =>
      own = lease ∧ deadline = nowMillis + policy.lease.asMillis
  | _ => False

/-- A lease is completed or aborted. -/
def Finishes (lease : Lease κ) : Event κ → Prop
  | .completed own _ _ _ _ => own = lease
  | .aborted own => own = lease
  | .decided _ _ _ _ _ _ => False

/-- A lease is issued for the identity of another one. -/
def Replaces (lease : Lease κ) (event : Event κ) : Prop :=
  ∃ other, event.issued = some other ∧ other.key = lease.key

/-- A lease is completed with a result, which is kept until it expires. -/
def Completes (lease : Lease κ) (result : Bytes) (expiresAt : ℤ) : Event κ → Prop
  | .completed own found nowMillis policy evicted =>
      own = lease ∧ found = result ∧ expiresAt = nowMillis + policy.ttl.asMillis ∧
        lease.key ∉ evicted
  | _ => False

end Event

section Protocol

variable {κ : Type}

def issued (events : List (Event κ)) : List (Lease κ) := events.filterMap Event.issued

/-- The instants of the decisions so far are not after `nowMillis`. -/
def NotBefore (events : List (Event κ)) (nowMillis : ℤ) : Prop :=
  ∀ event ∈ events, ∀ instant, event.instant = some instant → instant ≤ nowMillis

/-- A lease that was issued, that is not over, and that was not completed or aborted. -/
def Current (events : List (Event κ)) (nowMillis : ℤ) (lease : Lease κ) : Prop :=
  ∃ deadline, nowMillis < deadline ∧
    Since (Event.Issues lease deadline) (fun event => ¬ event.Finishes lease) events

/-- A lease that was completed, aborted or replaced after it was issued. -/
def Stale (events : List (Event κ)) (lease : Lease κ) : Prop :=
  ∃ before issue between finish after,
    events = before ++ issue :: between ++ finish :: after ∧ issue.issued = some lease ∧
      (finish.Finishes lease ∨ finish.Replaces lease)

/-- A record that was completed with a result and was not evicted since. -/
def Retained (events : List (Event κ)) (lease : Lease κ) (result : Bytes) (expiresAt : ℤ) : Prop :=
  Since (Event.Completes lease result expiresAt) (fun event => lease.key ∉ event.evicted) events

end Protocol

section Invariant

variable {κ : Type} [DecidableEq κ]

/-- An event changes the records as its call does. -/
def Event.Step (before after : Records κ) : Event κ → Prop
  | .decided key digest owner nowMillis policy decision => ∃ missingResult,
      before.decision key digest owner nowMillis policy.lease missingResult = .ok (decision, after)
  | .completed lease result nowMillis policy evicted => ∃ stale,
      before.complete lease result nowMillis policy stale = .ok (evicted, after)
  | .aborted lease => after = before.abort lease

/-- A lease owns its record until a deadline. -/
def HeldUntil (rows : Table κ RetainedRow) (lease : Lease κ) (deadline : ℤ) : Prop :=
  ∃ row, rows.find lease.key = some row ∧ lease.owns lease.key row = true ∧
    row.leaseUntil = some deadline

/-- A record is completed with a result until it expires. -/
def Answers (rows : Table κ RetainedRow) (lease : Lease κ) (result : Bytes) (expiresAt : ℤ) :
    Prop :=
  ∃ row, rows.find lease.key = some row ∧ row.digest = lease.digest ∧ row.status = .completed ∧
    row.result = some result ∧ row.expiresAt = some expiresAt

variable {before after : Records κ} {event : Event κ} {lease : Lease κ}

theorem Event.Step.issues (hstep : event.Step before after) {deadline : ℤ}
    (hissues : event.Issues lease deadline) : HeldUntil after.rows lease deadline := by
  cases event with
  | completed own result nowMillis policy evicted => exact hissues.elim
  | aborted own => exact hissues.elim
  | decided key digest owner nowMillis policy decision =>
    obtain ⟨missingResult, hdecision⟩ := hstep
    obtain ⟨-, ⟨row, hdecided, hfind, hdigest, hstatus, howner, hlease, -⟩ |
      ⟨old, lastUsed, -, -, -, hnever⟩⟩ := Records.decision_eq_ok hdecision
    · subst hdecided
      obtain ⟨hsame, hdeadline⟩ := hissues
      subst hsame
      rw [← hdeadline] at hlease
      exact ⟨row, hfind, Lease.owns_iff.mpr ⟨rfl, hdigest, hstatus, howner⟩, hlease⟩
    · cases decision with
      | error error => exact hissues.elim
      | ok decided =>
        cases decided with
        | execute own => exact absurd rfl (hnever own)
        | replay result => exact hissues.elim
        | conflict => exact hissues.elim
        | inProgress => exact hissues.elim

/-- A lease keeps its record until it is finished or over. -/
theorem Event.Step.held (hstep : event.Step before after) {deadline : ℤ}
    (hheld : HeldUntil before.rows lease deadline) (hunfinished : ¬ event.Finishes lease)
    (hlive : ∀ instant, event.instant = some instant → instant < deadline) :
    HeldUntil after.rows lease deadline := by
  obtain ⟨row, hfind, howns, hlease⟩ := hheld
  obtain ⟨-, hdigest, hstatus, howner⟩ := Lease.owns_iff.mp howns
  cases event with
  | decided key digest owner nowMillis policy decision =>
    obtain ⟨missingResult, hdecision⟩ := hstep
    have hnow : nowMillis < deadline := hlive nowMillis rfl
    have hover : row.over nowMillis = false := by
      unfold RetainedRow.over
      rw [hstatus, hlease]
      simp only [Option.any_some, decide_eq_false_iff_not]
      omega
    obtain ⟨hothers, hown⟩ := Records.decision_eq_ok hdecision
    by_cases hkey : key = lease.key
    · subst hkey
      rcases hown with ⟨_, -, -, -, -, -, -, hfree⟩ | ⟨old, lastUsed, hold, -, hafter, -⟩
      · have hnone := (hfree row hfind hover).2
        rw [hlease] at hnone
        cases hnone
      · rw [hfind, Option.some.injEq] at hold
        subst hold
        exact ⟨_, hafter, Lease.owns_iff.mpr ⟨rfl, hdigest, hstatus, howner⟩, hlease⟩
    · have hkept := hothers lease.key hkey
      rw [hfind, Option.filter_some, hover] at hkept
      exact ⟨row, hkept, howns, hlease⟩
  | completed own result nowMillis policy evicted =>
    obtain ⟨stale, hcomplete⟩ := hstep
    obtain ⟨old, _, hold, hother, -, -, -, -, -, -, hkept, hgone⟩ :=
      Records.complete_eq_ok hcomplete
    have hne : lease.key ≠ own.key := by
      intro hkey
      rw [← hkey, hfind, Option.some.injEq] at hold
      subst hold
      rw [← hkey] at hother
      exact hunfinished (Lease.eq_of_owns hother howns)
    have hnot : lease.key ∉ evicted := by
      intro hmem
      obtain ⟨-, hsame | ⟨found, hfound, hcompleted⟩⟩ := hgone lease.key hmem
      · exact hne hsame
      · rw [hfind, Option.some.injEq] at hfound
        rw [← hfound, hstatus] at hcompleted
        cases hcompleted
    exact ⟨row, (hkept lease.key hnot hne).trans hfind, howns, hlease⟩
  | aborted own =>
    have habort : after.rows.find lease.key =
        (before.rows.find lease.key).filter fun row => !own.owns lease.key row := by
      have hafter : after = before.abort own := hstep
      rw [hafter]
      exact Records.find_abort before own lease.key
    have hnot : own.owns lease.key row = false := by
      rw [← Bool.not_eq_true]
      intro hother
      exact hunfinished (Lease.eq_of_owns hother howns)
    rw [hfind, Option.filter_some, hnot] at habort
    exact ⟨row, habort, howns, hlease⟩

/-- A lease that owns a record was issued by this event, or owned the record before it
and was not finished or replaced. -/
theorem Event.Step.owned (hstep : event.Step before after) {row : RetainedRow}
    (hfind : after.rows.find lease.key = some row) (howns : lease.owns lease.key row = true) :
    event.issued = some lease ∨
      ((∃ old, before.rows.find lease.key = some old ∧ lease.owns lease.key old = true) ∧
        ¬ event.Finishes lease ∧ ¬ event.Replaces lease) := by
  obtain ⟨-, hdigest, hstatus, howner⟩ := Lease.owns_iff.mp howns
  cases event with
  | decided key digest owner nowMillis policy decision =>
    obtain ⟨missingResult, hdecision⟩ := hstep
    obtain ⟨hothers, hown⟩ := Records.decision_eq_ok hdecision
    by_cases hkey : key = lease.key
    · subst hkey
      rcases hown with ⟨own, hdecided, hafter, hdigest', -, howner', -, -⟩ |
        ⟨old, lastUsed, hold, -, hafter, hnever⟩
      · left
        rw [hfind, Option.some.injEq] at hafter
        subst hafter
        rw [howner, Option.some.injEq] at howner'
        rw [hdigest] at hdigest'
        subst hdecided hdigest' howner'
        rfl
      · right
        rw [hfind, Option.some.injEq] at hafter
        refine ⟨⟨old, hold, ?_⟩, fun hfalse => hfalse, ?_⟩
        · rw [hafter] at howns
          exact howns
        · rintro ⟨other, hissued, -⟩
          unfold Event.issued at hissued
          split at hissued
          · rename_i heq
            cases heq
            exact hnever _ rfl
          · cases hissued
    · right
      have hkept := hothers lease.key hkey
      rw [hfind] at hkept
      have hbefore := (Option.filter_eq_some_iff.mp hkept.symm).1
      refine ⟨⟨row, hbefore, howns⟩, fun hfalse => hfalse, ?_⟩
      rintro ⟨other, hissued, hother⟩
      rcases hown with ⟨_, hdecided, -⟩ | ⟨_, _, -, -, -, hnever⟩
      · rw [hdecided] at hissued
        simp only [Event.issued, Option.some.injEq] at hissued
        rw [← hissued] at hother
        exact hkey hother
      · unfold Event.issued at hissued
        split at hissued
        · rename_i heq
          cases heq
          exact hnever _ rfl
        · cases hissued
  | completed own result nowMillis policy evicted =>
    obtain ⟨stale, hcomplete⟩ := hstep
    obtain ⟨old, new, hold, hother, -, hcompleted, -, -, -, hnew, hkept, hgone⟩ :=
      Records.complete_eq_ok hcomplete
    have hnot : lease.key ∉ evicted := by
      intro hmem
      rw [(hgone lease.key hmem).1] at hfind
      cases hfind
    have hne : lease.key ≠ own.key := by
      intro hkey
      rw [← hkey] at hnew
      rw [hnew hnot, Option.some.injEq] at hfind
      rw [← hfind, hcompleted] at hstatus
      cases hstatus
    right
    rw [hkept lease.key hnot hne] at hfind
    refine ⟨⟨row, hfind, howns⟩, ?_, ?_⟩
    · intro hsame
      have heq : own = lease := hsame
      rw [heq] at hne
      exact hne rfl
    · rintro ⟨other, hissued, -⟩
      cases hissued
  | aborted own =>
    have hafter : after = before.abort own := hstep
    rw [hafter, Records.find_abort, Option.filter_eq_some_iff] at hfind
    obtain ⟨hbefore, hnot⟩ := hfind
    right
    refine ⟨⟨row, hbefore, howns⟩, ?_, ?_⟩
    · intro hsame
      have heq : own = lease := hsame
      rw [heq, howns] at hnot
      cases hnot
    · rintro ⟨other, hissued, -⟩
      cases hissued

theorem Event.Step.completes (hstep : event.Step before after) {result : Bytes} {expiresAt : ℤ}
    (hcompletes : event.Completes lease result expiresAt) :
    Answers after.rows lease result expiresAt := by
  cases event with
  | decided key digest owner nowMillis policy decision => exact hcompletes.elim
  | aborted own => exact hcompletes.elim
  | completed own found nowMillis policy evicted =>
    obtain ⟨hlease, hresult, hexpires, hnot⟩ := hcompletes
    subst hlease hresult hexpires
    obtain ⟨stale, hcomplete⟩ := hstep
    obtain ⟨old, row, -, -, hdigest, hstatus, -, hresult, hexpires, hnew, -, -⟩ :=
      Records.complete_eq_ok hcomplete
    exact ⟨row, hnew hnot, hdigest, hstatus, hresult, hexpires⟩

/-- A completed record stays until it expires or is evicted. -/
theorem Event.Step.answers (hstep : event.Step before after) {result : Bytes} {expiresAt : ℤ}
    (hanswers : Answers before.rows lease result expiresAt) (hkept : lease.key ∉ event.evicted)
    (hlive : ∀ instant, event.instant = some instant → instant < expiresAt) :
    Answers after.rows lease result expiresAt := by
  obtain ⟨row, hfind, hdigest, hstatus, hresult, hexpires⟩ := hanswers
  cases event with
  | decided key digest owner nowMillis policy decision =>
    obtain ⟨missingResult, hdecision⟩ := hstep
    have hnow : nowMillis < expiresAt := hlive nowMillis rfl
    have hover : row.over nowMillis = false := by
      unfold RetainedRow.over
      rw [hstatus, hexpires]
      simp only [Option.any_some, decide_eq_false_iff_not]
      omega
    obtain ⟨hothers, hown⟩ := Records.decision_eq_ok hdecision
    by_cases hkey : key = lease.key
    · subst hkey
      rcases hown with ⟨_, -, -, -, -, -, -, hfree⟩ | ⟨old, lastUsed, hold, -, hafter, -⟩
      · have hundecided := (hfree row hfind hover).1
        rw [hstatus] at hundecided
        cases hundecided
      · rw [hfind, Option.some.injEq] at hold
        subst hold
        exact ⟨_, hafter, hdigest, hstatus, hresult, hexpires⟩
    · have hkeep := hothers lease.key hkey
      rw [hfind, Option.filter_some, hover] at hkeep
      exact ⟨row, hkeep, hdigest, hstatus, hresult, hexpires⟩
  | completed own found nowMillis policy evicted =>
    obtain ⟨stale, hcomplete⟩ := hstep
    obtain ⟨old, _, hold, hother, -, -, -, -, -, -, hothers, -⟩ :=
      Records.complete_eq_ok hcomplete
    have hne : lease.key ≠ own.key := by
      intro hkey
      rw [← hkey, hfind, Option.some.injEq] at hold
      rw [← hold] at hother
      have hundecided := (Lease.owns_iff.mp hother).2.2.1
      rw [hstatus] at hundecided
      cases hundecided
    exact ⟨row, (hothers lease.key hkept hne).trans hfind, hdigest, hstatus, hresult, hexpires⟩
  | aborted own =>
    have hafter : after = before.abort own := hstep
    have hnot : own.owns lease.key row = false := by
      rw [← Bool.not_eq_true]
      intro hother
      have hundecided := (Lease.owns_iff.mp hother).2.2.1
      rw [hstatus] at hundecided
      cases hundecided
    have habort := Records.find_abort before own lease.key
    rw [hfind, Option.filter_some, hnot] at habort
    rw [hafter]
    exact ⟨row, habort, hdigest, hstatus, hresult, hexpires⟩

/-! ## What the events say about the records -/

/-- The records as the events left them: a lease that is not finished and not over holds
its record, an owner is the last lease that was issued, and a completed record that is
not over answers. -/
structure RecordsInvariant (events : List (Event κ)) (rows : Table κ RetainedRow) : Prop where
  held : ∀ lease deadline,
    Since (Event.Issues lease deadline)
      (fun event => ¬ event.Finishes lease ∧
        ∀ instant, event.instant = some instant → instant < deadline) events →
      HeldUntil rows lease deadline
  owned : ∀ (lease : Lease κ) row, rows.find lease.key = some row →
    lease.owns lease.key row = true →
      Since (fun event => event.issued = some lease)
        (fun event => ¬ event.Finishes lease ∧ ¬ event.Replaces lease) events
  answers : ∀ lease result expiresAt,
    Since (Event.Completes lease result expiresAt)
      (fun event => lease.key ∉ event.evicted ∧
        ∀ instant, event.instant = some instant → instant < expiresAt) events →
      Answers rows lease result expiresAt

theorem RecordsInvariant.nil : RecordsInvariant ([] : List (Event κ)) .empty where
  held := fun _ _ hsince => absurd hsince not_since_nil
  owned := by
    intro lease row hfind
    cases hfind
  answers := fun _ _ _ hsince => absurd hsince not_since_nil

theorem RecordsInvariant.step {events : List (Event κ)}
    (hinvariant : RecordsInvariant events before.rows) (hstep : event.Step before after) :
    RecordsInvariant (events ++ [event]) after.rows where
  held := by
    intro lease deadline hsince
    rcases since_concat.mp hsince with hissues | ⟨hearlier, hunfinished, hlive⟩
    · exact hstep.issues hissues
    · exact hstep.held (hinvariant.held lease deadline hearlier) hunfinished hlive
  owned := by
    intro lease row hfind howns
    rw [since_concat]
    rcases hstep.owned hfind howns with hissued | ⟨⟨old, hold, howned⟩, hkept⟩
    · exact Or.inl hissued
    · exact Or.inr ⟨hinvariant.owned lease old hold howned, hkept⟩
  answers := by
    intro lease result expiresAt hsince
    rcases since_concat.mp hsince with hcompletes | ⟨hearlier, hkept, hlive⟩
    · exact hstep.completes hcompletes
    · exact hstep.answers (hinvariant.answers lease result expiresAt hearlier) hkept hlive

/-- At most one lease of an identity is current. -/
theorem RecordsInvariant.current_unique {events : List (Event κ)} {rows : Table κ RetainedRow}
    (hinvariant : RecordsInvariant events rows) {nowMillis : ℤ} (hnow : NotBefore events nowMillis)
    {first second : Lease κ} (hfirst : Current events nowMillis first)
    (hsecond : Current events nowMillis second) (hkey : first.key = second.key) :
    first = second := by
  have hholds : ∀ lease, Current events nowMillis lease →
      ∃ row, rows.find lease.key = some row ∧ lease.owns lease.key row = true := by
    rintro lease ⟨deadline, hlive, hsince⟩
    have hheld := hinvariant.held lease deadline (hsince.imp (fun _ hissues => hissues) ?_)
    · obtain ⟨row, hfind, howns, -⟩ := hheld
      exact ⟨row, hfind, howns⟩
    · intro event hmem hunfinished
      refine ⟨hunfinished, ?_⟩
      intro instant hinstant
      have hle := hnow event hmem instant hinstant
      omega
  obtain ⟨row, hfind, howns⟩ := hholds first hfirst
  obtain ⟨other, hfound, howned⟩ := hholds second hsecond
  rw [← hkey] at hfound howned
  rw [hfind, Option.some.injEq] at hfound
  rw [← hfound] at howned
  exact Lease.eq_of_owns howns howned

/-- A stale lease owns nothing. -/
theorem RecordsInvariant.not_owned {events : List (Event κ)} {rows : Table κ RetainedRow}
    (hinvariant : RecordsInvariant events rows) (hnodup : (issued events).Nodup)
    (hstale : Stale events lease) :
    ∀ key row, rows.find key = some row → lease.owns key row = false := by
  intro key row hfind
  rw [← Bool.not_eq_true]
  intro howns
  have hkey := lease.owns_key key row howns
  subst hkey
  obtain ⟨earlier, issue, between, finish, later, hsplit, hissue, hfinish⟩ := hstale
  have honce : events.Pairwise fun one two =>
      ¬ (one.issued = some lease ∧ two.issued = some lease) := by
    have hpairwise := List.pairwise_filterMap.mp hnodup
    refine hpairwise.imp ?_
    rintro one two hdistinct ⟨hone, htwo⟩
    exact hdistinct lease hone lease htwo rfl
  refine not_since_of_broken hsplit honce hissue ?_ (hinvariant.owned lease row hfind howns)
  rintro ⟨hunfinished, hunreplaced⟩
  rcases hfinish with hfinishes | hreplaces
  · exact hunfinished hfinishes
  · exact hunreplaced hreplaces

/-- A retained record answers until it expires. -/
theorem RecordsInvariant.answers_of_retained {events : List (Event κ)}
    {rows : Table κ RetainedRow} (hinvariant : RecordsInvariant events rows) {nowMillis : ℤ}
    (hnow : NotBefore events nowMillis) {result : Bytes} {expiresAt : ℤ}
    (hretained : Retained events lease result expiresAt) (hlive : nowMillis < expiresAt) :
    Answers rows lease result expiresAt := by
  refine hinvariant.answers lease result expiresAt (hretained.imp (fun _ hstart => hstart) ?_)
  intro event hmem hkept
  refine ⟨hkept, ?_⟩
  intro instant hinstant
  have hle := hnow event hmem instant hinstant
  omega

end Invariant

/-! ## The two tables -/

/-- A table of records of the store: its calls and events, and that the events describe
what the calls do to it. -/
structure RecordKind (κ : Type) [DecidableEq κ] where
  records : Store → Records κ
  event : Call × Reply → Option (Event κ)
  decision : κ → Bytes → Bytes → ℤ → RetentionPolicy → Call
  decided : Except StateError (Decision κ) → Reply
  complete : Lease κ → Bytes → ℤ → RetentionPolicy → Call
  abort : Lease κ → Call
  checks : StoreLimits → κ → Bytes → Bytes → RetentionPolicy → Except StateError Unit
  records_open : ∀ limits, (records (Store.open limits)).rows = .empty
  step_event : ∀ store call found, event (call, (store.step call).1) = some found →
    found.Step (records store) (records (store.step call).2)
  step_other : ∀ store call, event (call, (store.step call).1) = none →
    (records (store.step call).2).rows = (records store).rows
  step_decision : ∀ store key digest owner nowMillis policy,
    checks store.limits key digest owner policy = .ok () → ∃ missingResult, ∀ decided' next,
      (records store).decision key digest owner nowMillis policy.lease missingResult =
        .ok (decided', next) →
      (store.step (decision key digest owner nowMillis policy)).1 = decided decided'
  step_complete : ∀ store lease result nowMillis policy,
    (∃ error, store.step (complete lease result nowMillis policy) = (.refused error, store)) ∨
      ∃ stale evicted next, (records store).complete lease result nowMillis policy stale =
        .ok (evicted, next)
  step_abort : ∀ store lease, (records store).abort lease = records store →
    store.step (abort lease) = (.aborted, store)

/-- A call on other parts of the store keeps the replay records. -/
theorem Store.step_replay_of_area {store : Store} {call : Call} (harea : call.area ≠ .replay) :
    (store.step call).2.replay = store.replay := by
  have hframe := store.step_frame call
  cases hcase : call.area with
  | replay => exact absurd hcase harea
  | outcome =>
    rw [hcase] at hframe
    obtain ⟨_, _, _, _, _, _, _, hnext⟩ := hframe
    rw [hnext]
  | jobs =>
    rw [hcase] at hframe
    obtain ⟨_, _, hnext⟩ := hframe
    rw [hnext]
  | schedules =>
    rw [hcase] at hframe
    obtain ⟨_, _, hnext⟩ := hframe
    rw [hnext]
  | idempotency =>
    rw [hcase] at hframe
    obtain ⟨records, hnext⟩ := hframe
    rw [hnext]
    rfl

/-- A call on other parts of the store keeps the idempotency records. -/
theorem Store.step_idempotency_of_area {store : Store} {call : Call}
    (harea : call.area ≠ .idempotency) : (store.step call).2.idempotency = store.idempotency := by
  have hframe := store.step_frame call
  cases hcase : call.area with
  | idempotency => exact absurd hcase harea
  | outcome =>
    rw [hcase] at hframe
    obtain ⟨_, _, _, _, _, _, _, hnext⟩ := hframe
    rw [hnext]
  | jobs =>
    rw [hcase] at hframe
    obtain ⟨_, _, hnext⟩ := hframe
    rw [hnext]
  | schedules =>
    rw [hcase] at hframe
    obtain ⟨_, _, hnext⟩ := hframe
    rw [hnext]
  | replay =>
    rw [hcase] at hframe
    obtain ⟨records, hnext⟩ := hframe
    rw [hnext]
    rfl

def replayEvent : Call × Reply → Option (Event ReplayKey)
  | (.replayDecision request policy, .replayDecided decision) =>
      some (.decided (request.artifact, request.kind, request.operation) request.inputDigest
        request.owner request.nowMillis policy decision)
  | (.completeReplay lease result nowMillis policy, .replayCompleted evicted) =>
      some (.completed lease result nowMillis policy evicted)
  | (.abortReplay lease, .aborted) => some (.aborted lease)
  | _ => none

theorem replayEvent_of_area {call : Call} (harea : call.area ≠ .replay) (reply : Reply) :
    replayEvent (call, reply) = none := by
  cases call with
  | replayDecision request policy => exact absurd rfl harea
  | completeReplay lease result now policy => exact absurd rfl harea
  | abortReplay lease => exact absurd rfl harea
  | _ => rfl

def idempotencyEvent : Call × Reply → Option (Event IdempotencyKey)
  | (.idempotencyDecision artifact key digest owner nowMillis policy,
      .idempotencyDecided decision) =>
      some (.decided (artifact, key) digest owner nowMillis policy decision)
  | (.completeIdempotency lease response nowMillis policy, .idempotencyCompleted evicted) =>
      some (.completed lease response nowMillis policy evicted)
  | (.abortIdempotency lease, .aborted) => some (.aborted lease)
  | _ => none

theorem idempotencyEvent_of_area {call : Call} (harea : call.area ≠ .idempotency) (reply : Reply) :
    idempotencyEvent (call, reply) = none := by
  cases call with
  | idempotencyDecision artifact key digest owner now policy => exact absurd rfl harea
  | completeIdempotency lease response now policy => exact absurd rfl harea
  | abortIdempotency lease => exact absurd rfl harea
  | _ => rfl

theorem Store.step_replayEvent {store : Store} {call : Call} {found : Event ReplayKey}
    (hevent : replayEvent (call, (store.step call).1) = some found) :
    found.Step store.replayRecords (store.step call).2.replayRecords := by
  by_cases harea : call.area = .replay
  · cases call with
    | replayDecision request policy =>
      rw [Store.step] at hevent ⊢
      cases hdecision : store.replayDecision request policy with
      | error error =>
        rw [hdecision] at hevent
        cases hevent
      | ok outcome =>
        rw [hdecision] at hevent
        obtain ⟨records, hrecords, hnext⟩ := Store.replayDecision_eq_ok hdecision
        cases hevent
        rw [answer, hnext]
        exact ⟨_, hrecords⟩
    | completeReplay lease result now policy =>
      rw [Store.step] at hevent ⊢
      cases hcomplete : store.completeReplay lease result now policy with
      | error error =>
        rw [hcomplete] at hevent
        cases hevent
      | ok outcome =>
        rw [hcomplete] at hevent
        obtain ⟨records, hrecords, hnext⟩ := Store.completeReplay_eq_ok hcomplete
        cases hevent
        rw [answer, hnext]
        exact ⟨_, hrecords⟩
    | abortReplay lease =>
      cases hevent
      rfl
    | _ => cases harea
  · rw [replayEvent_of_area harea] at hevent
    cases hevent

theorem Store.step_idempotencyEvent {store : Store} {call : Call} {found : Event IdempotencyKey}
    (hevent : idempotencyEvent (call, (store.step call).1) = some found) :
    found.Step store.idempotencyRecords (store.step call).2.idempotencyRecords := by
  by_cases harea : call.area = .idempotency
  · cases call with
    | idempotencyDecision artifact key digest owner now policy =>
      rw [Store.step] at hevent ⊢
      cases hdecision : store.idempotencyDecision artifact key digest owner now policy with
      | error error =>
        rw [hdecision] at hevent
        cases hevent
      | ok outcome =>
        rw [hdecision] at hevent
        obtain ⟨records, hrecords, hnext⟩ := Store.idempotencyDecision_eq_ok hdecision
        cases hevent
        rw [answer, hnext]
        exact ⟨_, hrecords⟩
    | completeIdempotency lease response now policy =>
      rw [Store.step] at hevent ⊢
      cases hcomplete : store.completeIdempotency lease response now policy with
      | error error =>
        rw [hcomplete] at hevent
        cases hevent
      | ok outcome =>
        rw [hcomplete] at hevent
        obtain ⟨records, hrecords, hnext⟩ := Store.completeIdempotency_eq_ok hcomplete
        cases hevent
        rw [answer, hnext]
        exact ⟨_, hrecords⟩
    | abortIdempotency lease =>
      cases hevent
      rfl
    | _ => cases harea
  · rw [idempotencyEvent_of_area harea] at hevent
    cases hevent

/-- Without an event the call was refused, or it is about something else. -/
theorem Store.step_replay_of_none {store : Store} {call : Call}
    (hevent : replayEvent (call, (store.step call).1) = none) :
    (store.step call).2.replay = store.replay := by
  by_cases harea : call.area = .replay
  · cases call with
    | replayDecision request policy =>
      rw [Store.step] at hevent ⊢
      cases hdecision : store.replayDecision request policy with
      | error error => rfl
      | ok outcome =>
        rw [hdecision] at hevent
        cases hevent
    | completeReplay lease result now policy =>
      rw [Store.step] at hevent ⊢
      cases hcomplete : store.completeReplay lease result now policy with
      | error error => rfl
      | ok outcome =>
        rw [hcomplete] at hevent
        cases hevent
    | abortReplay lease => cases hevent
    | _ => cases harea
  · exact Store.step_replay_of_area harea

theorem Store.step_idempotency_of_none {store : Store} {call : Call}
    (hevent : idempotencyEvent (call, (store.step call).1) = none) :
    (store.step call).2.idempotency = store.idempotency := by
  by_cases harea : call.area = .idempotency
  · cases call with
    | idempotencyDecision artifact key digest owner now policy =>
      rw [Store.step] at hevent ⊢
      cases hdecision : store.idempotencyDecision artifact key digest owner now policy with
      | error error => rfl
      | ok outcome =>
        rw [hdecision] at hevent
        cases hevent
    | completeIdempotency lease response now policy =>
      rw [Store.step] at hevent ⊢
      cases hcomplete : store.completeIdempotency lease response now policy with
      | error error => rfl
      | ok outcome =>
        rw [hcomplete] at hevent
        cases hevent
    | abortIdempotency lease => cases hevent
    | _ => cases harea
  · exact Store.step_idempotency_of_area harea

def replayKind : RecordKind ReplayKey where
  records := Store.replayRecords
  event := replayEvent
  decision := fun key inputDigest owner nowMillis policy =>
    .replayDecision
      { artifact := key.1, kind := key.2.1, operation := key.2.2, inputDigest, owner, nowMillis }
      policy
  decided := .replayDecided
  complete := .completeReplay
  abort := .abortReplay
  checks := fun limits key inputDigest owner policy => do
    policy.validate limits
    validateIdentity key.2.2 limits.maxKeyBytes
    validateDigest key.1
    validateDigest inputDigest
    validateOwner owner
  records_open := fun _ => rfl
  step_event := fun _ _ _ hevent => Store.step_replayEvent hevent
  step_other := fun _ _ hevent => Store.step_replay_of_none hevent
  step_decision := by
    intro store key digest owner nowMillis policy hchecks
    refine ⟨"completed replay record has no result", ?_⟩
    intro decided next hdecision
    simp only [Result.bind_eq_ok] at hchecks
    obtain ⟨_, hpolicy, _, hoperation, _, hartifact, _, hdigest, howner⟩ := hchecks
    simp only [Store.step, Store.replayDecision, hpolicy, hoperation, hartifact, hdigest, howner]
    have hrecords : store.replayRecords.decision (key.1, key.2.1, key.2.2) digest owner nowMillis
        policy.lease "completed replay record has no result" = .ok (decided, next) := hdecision
    simp only [bind, Except.bind, hrecords]
    rfl
  step_complete := by
    intro store lease result nowMillis policy
    simp only [Store.step]
    cases hcomplete : store.completeReplay lease result nowMillis policy with
    | error error => exact Or.inl ⟨error, rfl⟩
    | ok outcome =>
      obtain ⟨records, hrecords, -⟩ := Store.completeReplay_eq_ok hcomplete
      exact Or.inr ⟨_, _, _, hrecords⟩
  step_abort := by
    intro store lease habort
    rw [Store.step, Store.abortReplay, habort]
    rfl

def idempotencyKind : RecordKind IdempotencyKey where
  records := Store.idempotencyRecords
  event := idempotencyEvent
  decision := fun key => .idempotencyDecision key.1 key.2
  decided := .idempotencyDecided
  complete := .completeIdempotency
  abort := .abortIdempotency
  checks := fun limits key requestDigest owner policy => do
    policy.validate limits
    validateIdentity key.2 limits.maxKeyBytes
    validateDigest key.1
    validateDigest requestDigest
    validateOwner owner
  records_open := fun _ => rfl
  step_event := fun _ _ _ hevent => Store.step_idempotencyEvent hevent
  step_other := fun _ _ hevent => Store.step_idempotency_of_none hevent
  step_decision := by
    intro store key digest owner nowMillis policy hchecks
    refine ⟨"completed idempotency record has no response", ?_⟩
    intro decided next hdecision
    simp only [Result.bind_eq_ok] at hchecks
    obtain ⟨_, hpolicy, _, hkey, _, hartifact, _, hdigest, howner⟩ := hchecks
    simp only [Store.step, Store.idempotencyDecision, hpolicy, hkey, hartifact, hdigest, howner]
    have hrecords : store.idempotencyRecords.decision (key.1, key.2) digest owner nowMillis
        policy.lease "completed idempotency record has no response" = .ok (decided, next) :=
      hdecision
    simp only [bind, Except.bind, hrecords]
    rfl
  step_complete := by
    intro store lease response nowMillis policy
    simp only [Store.step]
    cases hcomplete : store.completeIdempotency lease response nowMillis policy with
    | error error => exact Or.inl ⟨error, rfl⟩
    | ok outcome =>
      obtain ⟨records, hrecords, -⟩ := Store.completeIdempotency_eq_ok hcomplete
      exact Or.inr ⟨_, _, _, hrecords⟩
  step_abort := by
    intro store lease habort
    rw [Store.step, Store.abortIdempotency, habort]
    rfl

/-! ## Every run -/

section Runs

variable {κ : Type} [DecidableEq κ]

def RecordKind.events (kind : RecordKind κ) (past : List (Call × Reply)) : List (Event κ) :=
  past.filterMap kind.event

/-- The protocol of a table after some events: one lease of an identity is current at an
instant that is not before the decisions so far; a stale lease changes nothing; and a
retained record answers every decision that passes its checks, as long as the counter
of uses has room. -/
structure RecordKind.Protocol (kind : RecordKind κ) (events : List (Event κ)) (store : Store) :
    Prop where
  current : ∀ nowMillis, NotBefore events nowMillis → ∀ first second,
    Current events nowMillis first → Current events nowMillis second →
      first.key = second.key → first = second
  staleCompletion : ∀ lease, Stale events lease → ∀ result nowMillis policy, ∃ error,
    store.step (kind.complete lease result nowMillis policy) = (.refused error, store)
  staleAbort : ∀ lease, Stale events lease →
    store.step (kind.abort lease) = (.aborted, store)
  replays : ∀ lease result expiresAt, Retained events lease result expiresAt →
    ∀ nowMillis, NotBefore events nowMillis → nowMillis < expiresAt → ∀ owner policy,
      kind.checks store.limits lease.key lease.digest owner policy = .ok () →
      (i64TryFrom ((kind.records store).sequence + 1)).isSome →
        (store.step (kind.decision lease.key lease.digest owner nowMillis policy)).1 =
          kind.decided (.ok (.replay result))
  conflicts : ∀ lease result expiresAt, Retained events lease result expiresAt →
    ∀ nowMillis, NotBefore events nowMillis → nowMillis < expiresAt → ∀ digest owner policy,
      kind.checks store.limits lease.key digest owner policy = .ok () → digest ≠ lease.digest →
        (store.step (kind.decision lease.key digest owner nowMillis policy)).1 =
          kind.decided (.ok .conflict)

theorem RecordKind.recordsInvariant (kind : RecordKind κ) (limits : StoreLimits)
    (calls : List Call) :
    RecordsInvariant (kind.events (history (Store.open limits) calls))
      (kind.records (run (Store.open limits) calls)).rows := by
  refine History.invariant Store.step (motive := fun past store =>
    RecordsInvariant (kind.events past) (kind.records store).rows) ?_ ?_ calls
  · rw [kind.records_open]
    exact RecordsInvariant.nil
  · intro past store call hinvariant
    have hevents : kind.events (past ++ [(call, (store.step call).1)]) =
        kind.events past ++ (kind.event (call, (store.step call).1)).toList := by
      unfold RecordKind.events
      rw [List.filterMap_append]
      cases hevent : kind.event (call, (store.step call).1) <;> simp [hevent]
    rw [hevents]
    cases hevent : kind.event (call, (store.step call).1) with
    | none =>
      rw [kind.step_other store call hevent, Option.toList_none, List.append_nil]
      exact hinvariant
    | some found => exact hinvariant.step (kind.step_event store call found hevent)

theorem RecordKind.protocol (kind : RecordKind κ) {events : List (Event κ)} {store : Store}
    (hinvariant : RecordsInvariant events (kind.records store).rows)
    (hnodup : (issued events).Nodup) : kind.Protocol events store where
  current := by
    intro nowMillis hnow first second hfirst hsecond hkey
    exact hinvariant.current_unique hnow hfirst hsecond hkey
  staleCompletion := by
    intro lease hstale result nowMillis policy
    rcases kind.step_complete store lease result nowMillis policy with hrefused |
      ⟨stale, evicted, next, hcomplete⟩
    · exact hrefused
    · obtain ⟨old, _, hfind, howns, -⟩ := Records.complete_eq_ok hcomplete
      rw [hinvariant.not_owned hnodup hstale lease.key old hfind] at howns
      cases howns
  staleAbort := by
    intro lease hstale
    refine kind.step_abort store lease ?_
    unfold Records.abort
    rw [Table.delete_eq_self (hinvariant.not_owned hnodup hstale)]
  replays := by
    intro lease result expiresAt hretained nowMillis hnow hlive owner policy hchecks hcounter
    obtain ⟨row, hfind, hdigest, hstatus, hresult, hexpires⟩ :=
      hinvariant.answers_of_retained hnow hretained hlive
    obtain ⟨missingResult, hreply⟩ :=
      kind.step_decision store lease.key lease.digest owner nowMillis policy hchecks
    obtain ⟨next, hdecision⟩ := (Records.decision_of_completed hfind hstatus hresult hexpires hlive
      lease.digest owner policy.lease missingResult).2 hdigest hcounter
    exact hreply _ _ hdecision
  conflicts := by
    intro lease result expiresAt hretained nowMillis hnow hlive digest owner policy hchecks hne
    obtain ⟨row, hfind, hdigest, hstatus, hresult, hexpires⟩ :=
      hinvariant.answers_of_retained hnow hretained hlive
    obtain ⟨missingResult, hreply⟩ :=
      kind.step_decision store lease.key digest owner nowMillis policy hchecks
    have hother : row.digest ≠ digest := by
      rw [hdigest]
      exact Ne.symm hne
    obtain ⟨next, hdecision⟩ := (Records.decision_of_completed hfind hstatus hresult hexpires hlive
      digest owner policy.lease missingResult).1 hother
    exact hreply _ _ hdecision

end Runs

/-- Replay and idempotency records follow one protocol over every run in which no lease
is issued twice, as when each decision has an owner of its own. -/
theorem records_follow_protocol (limits : StoreLimits) (calls : List Call)
    (hreplay : (issued (replayKind.events (history (Store.open limits) calls))).Nodup)
    (hidempotency : (issued (idempotencyKind.events (history (Store.open limits) calls))).Nodup) :
    replayKind.Protocol (replayKind.events (history (Store.open limits) calls))
        (run (Store.open limits) calls) ∧
      idempotencyKind.Protocol (idempotencyKind.events (history (Store.open limits) calls))
        (run (Store.open limits) calls) :=
  ⟨replayKind.protocol (replayKind.recordsInvariant limits calls) hreplay,
    idempotencyKind.protocol (idempotencyKind.recordsInvariant limits calls) hidempotency⟩

def sampleRetentionPolicy : RetentionPolicy :=
  { maxEntries := 4
    maxBytes := 1024
    ttl := .fromMillis 1000
    lease := .fromMillis 100 }

def sampleIdempotencyKey : IdempotencyKey := (List.replicate 32 0, "order-7")

def sampleLease (owner : UInt8) : Lease IdempotencyKey :=
  { key := sampleIdempotencyKey
    digest := List.replicate 32 1
    owner := List.replicate 16 owner }

/-- The first lease runs out, the second one completes. -/
def sampleRetentionCalls : List Call :=
  [.idempotencyDecision (List.replicate 32 0) "order-7" (List.replicate 32 1)
      (List.replicate 16 2) 0 sampleRetentionPolicy,
    .idempotencyDecision (List.replicate 32 0) "order-7" (List.replicate 32 1)
      (List.replicate 16 3) 200 sampleRetentionPolicy,
    .completeIdempotency (sampleLease 3) [9] 250 sampleRetentionPolicy]

theorem sampleRetention_events :
    idempotencyKind.events (history (Store.open sampleLimits) sampleRetentionCalls) =
      [.decided sampleIdempotencyKey (List.replicate 32 1) (List.replicate 16 2) 0
          sampleRetentionPolicy (.ok (.execute (sampleLease 2))),
        .decided sampleIdempotencyKey (List.replicate 32 1) (List.replicate 16 3) 200
          sampleRetentionPolicy (.ok (.execute (sampleLease 3))),
        .completed (sampleLease 3) [9] 250 sampleRetentionPolicy []] := by
  rfl

theorem records_follow_protocol_sample :
    Stale (idempotencyKind.events (history (Store.open sampleLimits) sampleRetentionCalls))
      (sampleLease 2) ∧
    (∃ error, (run (Store.open sampleLimits) sampleRetentionCalls).step
        (.completeIdempotency (sampleLease 2) [8] 260 sampleRetentionPolicy) =
      (.refused error, run (Store.open sampleLimits) sampleRetentionCalls)) ∧
    ((run (Store.open sampleLimits) sampleRetentionCalls).step
        (.idempotencyDecision (List.replicate 32 0) "order-7" (List.replicate 32 1)
          (List.replicate 16 4) 1200 sampleRetentionPolicy)).1 =
      .idempotencyDecided (.ok (.replay [9])) := by
  have hreplay : (issued (replayKind.events
      (history (Store.open sampleLimits) sampleRetentionCalls))).Nodup := by
    have hnone : issued (replayKind.events
        (history (Store.open sampleLimits) sampleRetentionCalls)) = [] := rfl
    rw [hnone]
    exact List.nodup_nil
  have hidempotency : (issued (idempotencyKind.events
      (history (Store.open sampleLimits) sampleRetentionCalls))).Nodup := by
    rw [sampleRetention_events]
    decide +kernel
  have hstale : Stale (idempotencyKind.events
      (history (Store.open sampleLimits) sampleRetentionCalls)) (sampleLease 2) := by
    rw [sampleRetention_events]
    exact ⟨[], _, [], _, _, rfl, rfl, Or.inr ⟨sampleLease 3, rfl, rfl⟩⟩
  obtain ⟨-, hprotocol⟩ :=
    records_follow_protocol sampleLimits sampleRetentionCalls hreplay hidempotency
  refine ⟨hstale, hprotocol.staleCompletion _ hstale [8] 260 sampleRetentionPolicy, ?_⟩
  refine hprotocol.replays (sampleLease 3) [9] 1250 ?_ 1200 ?_ (by decide)
    (List.replicate 16 4) sampleRetentionPolicy (Result.eq_ok_of_toBool (by decide +kernel))
    (by decide +kernel)
  · rw [sampleRetention_events]
    exact ⟨[_, _], _, [], rfl, ⟨rfl, rfl, rfl, by simp⟩, by simp⟩
  · rw [sampleRetention_events]
    intro event hmem instant hinstant
    fin_cases hmem
    · cases hinstant
      decide
    · cases hinstant
      decide
    · cases hinstant

end Krit.Durable
