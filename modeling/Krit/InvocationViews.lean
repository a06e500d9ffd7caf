import Krit.Invocations

/-!
# What an invocation sees

The revision of a store determines its contents: only a commit with writes changes
them, and it advances the revision.  An operation depends on the store only through
its limits and, at the revision of the invocation, through its contents; on the same
contents at another revision it gives the same answer and stages the same writes.
-/

namespace Krit.Durable

open Machine Std

/-! ## Contents -/

/-- The values, checkpoints and objects of a store. -/
@[ext] structure Contents where
  kv : String → Option Bytes
  checkpoints : String → Option Bytes
  objects : String × String → Option Bytes

def Store.contents (store : Store) : Contents :=
  { kv := store.kv.find
    checkpoints := store.checkpoints.find
    objects := fun key => (store.objects.find key).map ObjectRow.value }

def Contents.apply (contents : Contents) : Mutation → Contents
  | .put key value => { contents with kv := Function.update contents.kv key (some value) }
  | .delete key => { contents with kv := Function.update contents.kv key none }
  | .checkpointPut name value =>
      { contents with checkpoints := Function.update contents.checkpoints name (some value) }
  | .objectPut bucket key value =>
      { contents with objects := Function.update contents.objects (bucket, key) (some value) }
  | .objectDelete bucket key =>
      { contents with objects := Function.update contents.objects (bucket, key) none }
  | .queuePublish _ _ _ => contents

section Mutations

variable {store next : Store} {queues : TreeMap String QueuePolicy}
  {buckets : TreeMap String BucketPolicy} {nowMillis : ℤ}

theorem Store.applyMutation_contents {mutation : Mutation}
    (happly : Store.applyMutation queues buckets nowMillis store mutation = .ok next) :
    next.contents = store.contents.apply mutation := by
  cases mutation with
  | put key value =>
    rw [Store.applyMutation, Result.pure_eq_ok] at happly
    rw [← happly]
    simp only [Store.contents, Contents.apply, Table.find_upsert_const]
  | delete key =>
    rw [Store.applyMutation, Result.pure_eq_ok] at happly
    rw [← happly]
    simp only [Store.contents, Contents.apply, Table.find_delete_key]
  | checkpointPut name value =>
    rw [Store.applyMutation, Result.pure_eq_ok] at happly
    rw [← happly]
    simp only [Store.contents, Contents.apply, Table.find_upsert_const]
  | objectPut bucket key value =>
    rw [Store.applyMutation, Result.bind_eq_ok] at happly
    obtain ⟨policy, -, hput⟩ := happly
    obtain ⟨row, hvalue, hnext⟩ := Store.putObject_eq_ok hput
    rw [hnext]
    simp only [Store.contents, Contents.apply, Table.find_upsert_const, Contents.mk.injEq,
      true_and]
    funext other
    by_cases hsame : other = (bucket, key)
    · rw [hsame, Function.update_self, Function.update_self, Option.map_some, hvalue]
    · rw [Function.update_of_ne hsame, Function.update_of_ne hsame]
  | objectDelete bucket key =>
    simp only [Store.applyMutation, Result.bind_eq_ok, Result.pure_eq_ok] at happly
    obtain ⟨-, -, hnext⟩ := happly
    rw [← hnext]
    simp only [Store.contents, Contents.apply, Table.find_delete_key, Contents.mk.injEq, true_and]
    funext other
    by_cases hsame : other = (bucket, key)
    · rw [hsame, Function.update_self, Function.update_self, Option.map_none]
    · rw [Function.update_of_ne hsame, Function.update_of_ne hsame]
  | queuePublish queue id body =>
    rw [Store.applyMutation, Result.bind_eq_ok] at happly
    obtain ⟨policy, -, hpublish⟩ := happly
    obtain ⟨-, sequence, row, -, hnext⟩ := Store.publish_eq_ok hpublish
    rw [hnext]
    rfl

theorem Store.applyMutations_contents {mutations : List Mutation}
    (happly : mutations.foldlM (Store.applyMutation queues buckets nowMillis) store = .ok next) :
    next.contents = mutations.foldl Contents.apply store.contents := by
  refine Store.applyMutations_induction
    (motive := fun mutations store next =>
      next.contents = mutations.foldl Contents.apply store.contents) ?_ ?_ happly
  · intro store
    rfl
  · intro mutation rest store middle next hfirst hrest
    rw [hrest, Store.applyMutation_contents hfirst, List.foldl_cons]

/-- A commit applies its mutations to the contents; with writes it needs and advances the
revision, and without it changes neither. -/
theorem Store.commitPlan_contents {plan : CommitPlan} {revision : ℕ}
    (hcommit : store.commitPlan plan = .ok (revision, next)) :
    next.limits = store.limits ∧
    next.contents = plan.mutations.foldl Contents.apply store.contents ∧
    (plan.mutations.any Mutation.advancesRevision = true →
      store.revision = plan.expectedRevision ∧ next.revision = store.revision + 1) ∧
    (plan.mutations.any Mutation.advancesRevision = false → next.revision = store.revision) := by
  obtain ⟨hexpected, applied, completed, happlied, hcompleted, hlast⟩ :=
    Store.commitPlan_eq_ok hcommit
  have hcontents := Store.applyMutations_contents happlied
  obtain ⟨_, _, _, _, _, happly⟩ := Store.applyMutations_frame happlied
  obtain ⟨_, _, hcomplete⟩ := Store.complete_frame hcompleted
  have hsame : completed.contents = applied.contents := by
    rw [hcomplete]
    rfl
  have hlimits : completed.limits = store.limits := by rw [hcomplete, happly]
  have hrevision : completed.revision = store.revision := by rw [hcomplete, happly]
  rcases hlast with ⟨hwrites, hadvance⟩ | ⟨hwrites, -, hnext⟩
  · obtain ⟨hadvanced, hnext⟩ := Store.advance_eq_ok hadvance
    have hkept : next.contents = completed.contents := by
      rw [hnext]
      rfl
    have hnewLimits : next.limits = completed.limits := by rw [hnext]
    have hnewRevision : next.revision = completed.revision + 1 := by rw [hnext, hadvanced]
    refine ⟨hnewLimits.trans hlimits, hkept.trans (hsame.trans hcontents), ?_, ?_⟩
    · intro _
      exact ⟨hexpected hwrites, hnewRevision.trans (by rw [hrevision])⟩
    · intro hnone
      rw [hwrites] at hnone
      cases hnone
  · rw [hnext]
    refine ⟨hlimits, hsame.trans hcontents, ?_, fun _ => hrevision⟩
    intro hsome
    rw [hwrites] at hsome
    cases hsome

end Mutations

/-! ## What is staged -/

/-- The contents with what is staged written over them. -/
def ActiveStore.view (active : ActiveStore) (contents : Contents) : Contents :=
  { kv := fun key => (active.values[key]?).elim (contents.kv key) id
    checkpoints := fun name => (active.checkpoints[name]?).elim (contents.checkpoints name) some
    objects := fun key => (active.objects[key]?).elim (contents.objects key) id }

/-- Whether a key/value, checkpoint or object write is staged. -/
def ActiveStore.writes (active : ActiveStore) : Bool :=
  active.mutations.any Mutation.advancesRevision

section Staged

variable {α : Type} (contents : Contents)

theorem foldl_apply_values (entries : List (String × Option Bytes)) :
    (entries.map valueMutation).foldl Contents.apply contents =
      { contents with kv := Overlay.write id contents.kv entries } := by
  induction entries generalizing contents with
  | nil => rfl
  | cons entry rest ih =>
    obtain ⟨key, value⟩ := entry
    rw [List.map_cons, List.foldl_cons, ih]
    cases value with
    | none => rfl
    | some value => rfl

theorem foldl_apply_checkpoints (entries : List (String × Bytes)) :
    (entries.map fun entry => Mutation.checkpointPut entry.1 entry.2).foldl Contents.apply
        contents =
      { contents with checkpoints := Overlay.write some contents.checkpoints entries } := by
  induction entries generalizing contents with
  | nil => rfl
  | cons entry rest ih =>
    rw [List.map_cons, List.foldl_cons, ih]
    rfl

theorem foldl_apply_objects (entries : List ((String × String) × Option Bytes)) :
    (entries.map objectMutation).foldl Contents.apply contents =
      { contents with objects := Overlay.write id contents.objects entries } := by
  induction entries generalizing contents with
  | nil => rfl
  | cons entry rest ih =>
    obtain ⟨⟨bucket, key⟩, value⟩ := entry
    rw [List.map_cons, List.foldl_cons, ih]
    cases value with
    | none => rfl
    | some value => rfl

theorem foldl_apply_publishes (entries : List (String × Identity × Bytes)) :
    (entries.map fun entry => Mutation.queuePublish entry.1 entry.2.1 entry.2.2).foldl
      Contents.apply contents = contents := by
  induction entries with
  | nil => rfl
  | cons entry rest ih =>
    rw [List.map_cons, List.foldl_cons]
    exact ih

/-- The mutations of a commit write what is staged. -/
theorem ActiveStore.foldl_mutations (active : ActiveStore) :
    active.mutations.foldl Contents.apply contents = active.view contents := by
  unfold ActiveStore.mutations
  rw [List.foldl_append, List.foldl_append, List.foldl_append, foldl_apply_values,
    foldl_apply_checkpoints, foldl_apply_objects, foldl_apply_publishes]
  unfold ActiveStore.view
  simp only [Contents.mk.injEq]
  refine ⟨?_, ?_, ?_⟩
  · funext key
    exact Overlay.write_toList id contents.kv active.values key
  · funext name
    exact Overlay.write_toList some contents.checkpoints active.checkpoints name
  · funext key
    exact Overlay.write_toList id contents.objects active.objects key

/-- Publications alone do not change the contents. -/
theorem foldl_apply_of_not_writes {mutations : List Mutation}
    (hwrites : mutations.any Mutation.advancesRevision = false) :
    mutations.foldl Contents.apply contents = contents := by
  induction mutations with
  | nil => rfl
  | cons mutation rest ih =>
    rw [List.any_cons, Bool.or_eq_false_iff] at hwrites
    rw [List.foldl_cons]
    cases mutation with
    | queuePublish queue id body => exact ih hwrites.2
    | _ => cases hwrites.1

end Staged

/-! ## Revisions determine contents -/

/-- A later state of a store: its revision has not decreased, and if it is the same then
so are the contents. -/
structure Store.Follows (before after : Store) : Prop where
  limits : after.limits = before.limits
  revision : before.revision ≤ after.revision
  contents : before.revision = after.revision → after.contents = before.contents

theorem Store.Follows.refl (store : Store) : store.Follows store := ⟨rfl, le_rfl, fun _ => rfl⟩

theorem Store.commitPlan_follows {store next : Store} {plan : CommitPlan} {revision : ℕ}
    (hcommit : store.commitPlan plan = .ok (revision, next)) : store.Follows next := by
  obtain ⟨hlimits, hcontents, hwrites, hnone⟩ := Store.commitPlan_contents hcommit
  cases hany : plan.mutations.any Mutation.advancesRevision with
  | true =>
    have hnext := (hwrites hany).2
    exact ⟨hlimits, by omega, fun heq => by omega⟩
  | false =>
    have hnext := hnone hany
    refine ⟨hlimits, by omega, ?_⟩
    intro _
    rw [hcontents, foldl_apply_of_not_writes store.contents hany]

/-- A transaction other than a commit changes neither revision nor contents. -/
theorem Store.step_contents (store : Store) {call : Call} (harea : call.area ≠ .outcome) :
    (store.step call).2.limits = store.limits ∧ (store.step call).2.revision = store.revision ∧
      (store.step call).2.contents = store.contents := by
  have hframe := store.step_frame call
  cases hcase : call.area with
  | outcome => exact absurd hcase harea
  | jobs =>
    rw [hcase] at hframe
    obtain ⟨_, _, hnext⟩ := hframe
    rw [hnext]
    exact ⟨rfl, rfl, rfl⟩
  | schedules =>
    rw [hcase] at hframe
    obtain ⟨_, _, hnext⟩ := hframe
    rw [hnext]
    exact ⟨rfl, rfl, rfl⟩
  | replay =>
    rw [hcase] at hframe
    obtain ⟨records, hnext⟩ := hframe
    rw [hnext]
    exact ⟨rfl, rfl, rfl⟩
  | idempotency =>
    rw [hcase] at hframe
    obtain ⟨records, hnext⟩ := hframe
    rw [hnext]
    exact ⟨rfl, rfl, rfl⟩

theorem DurableState.find_setStore (durable : DurableState) (name other : String) (store : Store) :
    (durable.setStore name store).stores.find other =
      if other = name then (durable.stores.find other).map fun _ => store
      else durable.stores.find other := by
  unfold DurableState.setStore
  simp only []
  rw [Table.find_update]
  by_cases hsame : other = name
  · rw [if_pos hsame]
    simp [hsame]
  · rw [if_neg hsame]
    simp [hsame]

/-- The same configuration with other states of the stores. -/
structure DurableState.SameShape (durable other : DurableState) : Prop where
  queues : other.queues = durable.queues
  buckets : other.buckets = durable.buckets
  limits : ∀ name, (other.stores.find name).map Store.limits =
    (durable.stores.find name).map Store.limits

namespace DurableState.SameShape

variable {durable other : DurableState}

theorem refl (durable : DurableState) : durable.SameShape durable := ⟨rfl, rfl, fun _ => rfl⟩

theorem trans {last : DurableState} (hfirst : durable.SameShape other)
    (hsecond : other.SameShape last) : durable.SameShape last where
  queues := hsecond.queues.trans hfirst.queues
  buckets := hsecond.buckets.trans hfirst.buckets
  limits := fun name => (hsecond.limits name).trans (hfirst.limits name)

theorem symm (hshape : durable.SameShape other) : other.SameShape durable where
  queues := hshape.queues.symm
  buckets := hshape.buckets.symm
  limits := fun name => (hshape.limits name).symm

theorem setStore {name : String} {store next : Store}
    (hfind : durable.stores.find name = some store) (hlimits : next.limits = store.limits) :
    durable.SameShape (durable.setStore name next) where
  queues := rfl
  buckets := rfl
  limits := by
    intro found
    rw [find_setStore]
    by_cases hsame : found = name
    · rw [if_pos hsame, hsame, hfind]
      simp [hlimits]
    · rw [if_neg hsame]

/-- A store that is configured has the same limits, and one that is not is refused. -/
theorem binding (hshape : durable.SameShape other) (name : String) :
    (∃ error, durable.binding name = .error error ∧ other.binding name = .error error) ∨
    ∃ store found, durable.stores.find name = some store ∧ other.stores.find name = some found ∧
      durable.binding name = .ok store ∧ other.binding name = .ok found ∧
      found.limits = store.limits := by
  have hlimits := hshape.limits name
  unfold DurableState.binding
  cases hfind : durable.stores.find name with
  | none =>
    rw [hfind] at hlimits
    cases hfound : other.stores.find name with
    | none => exact Or.inl ⟨_, rfl, rfl⟩
    | some found =>
      rw [hfound] at hlimits
      cases hlimits
  | some store =>
    rw [hfind] at hlimits
    cases hfound : other.stores.find name with
    | none =>
      rw [hfound] at hlimits
      cases hlimits
    | some found =>
      rw [hfound, Option.map_some, Option.map_some, Option.some.injEq] at hlimits
      exact Or.inr ⟨store, found, rfl, rfl, rfl, rfl, hlimits⟩

theorem bucket_eq (hshape : durable.SameShape other) (name : String) :
    other.bucket name = durable.bucket name := by
  unfold DurableState.bucket
  rw [hshape.buckets]

theorem queue_eq (hshape : durable.SameShape other) (name : String) :
    other.queue name = durable.queue name := by
  unfold DurableState.queue
  rw [hshape.queues]
  cases durable.queues[name]? with
  | none => rfl
  | some resource =>
    rcases hshape.binding resource.store with ⟨error, hone, htwo⟩ |
      ⟨store, found, -, -, hone, htwo, -⟩
    · simp only [Result.ofOption, bind, Except.bind, hone, htwo]
    · simp only [Result.ofOption, bind, Except.bind, hone, htwo]

end DurableState.SameShape

/-! ## Operations on equal contents -/

/-- The same invocation at another revision. -/
def ActiveStore.rebase (revision : ℕ) (active : ActiveStore) : ActiveStore :=
  { active with revision }

def InvocationState.rebase (revision : ℕ) (state : InvocationState) : InvocationState :=
  { state with active := state.active.map (ActiveStore.rebase revision) }

/-- The active store, if there is one, is a store at its present revision. -/
def InvocationState.At (state : InvocationState) (name : String) (revision : ℕ) : Prop :=
  ∀ active, state.active = some active → active.name = name ∧ active.revision = revision

/-- The contents as the invocation sees them. -/
def InvocationState.view (state : InvocationState) (contents : Contents) : Contents :=
  match state.active with
  | none => contents
  | some active => active.view contents

/-- An active store stays active under its revision. -/
def InvocationState.Keeps (state next : InvocationState) : Prop :=
  ∀ active, state.active = some active →
    ∃ later, next.active = some later ∧ later.name = active.name ∧
      later.revision = active.revision

theorem InvocationState.Keeps.at {state next : InvocationState} (hkeeps : state.Keeps next)
    {name : String} {revision : ℕ} (hat : next.At name revision) : state.At name revision := by
  intro active hactive
  obtain ⟨later, hlater, hname, hrevision⟩ := hkeeps active hactive
  obtain ⟨hsame, hat⟩ := hat later hlater
  exact ⟨hname.symm.trans hsame, hrevision.symm.trans hat⟩

theorem InvocationState.Keeps.refl (state : InvocationState) : state.Keeps state :=
  fun active hactive => ⟨active, hactive, rfl, rfl⟩

theorem InvocationState.Keeps.trans {state middle next : InvocationState}
    (hfirst : state.Keeps middle) (hsecond : middle.Keeps next) : state.Keeps next := by
  intro active hactive
  obtain ⟨between, hbetween, hname, hrevision⟩ := hfirst active hactive
  obtain ⟨later, hlater, hname', hrevision'⟩ := hsecond between hbetween
  exact ⟨later, hlater, hname'.trans hname, hrevision'.trans hrevision⟩

namespace InvocationState

variable {state : InvocationState} {durable : DurableState}

theorem activateChecked_keeps (state : InvocationState) (store : Store) (name : String) :
    state.Keeps (state.activateChecked store name).2 := by
  unfold activateChecked
  intro active hactive
  rw [hactive]
  simp only []
  split
  · exact ⟨active, hactive, rfl, rfl⟩
  · exact ⟨active, hactive, rfl, rfl⟩

theorem recordOperation_keeps (state : InvocationState) (durable : DurableState) (name : String) :
    state.Keeps (state.recordOperation durable name).2 := by
  unfold recordOperation
  cases durable.binding name with
  | error error => exact Keeps.refl state
  | ok store =>
    simp only []
    cases Machine.checkedAdd state.operations 1 with
    | none => exact Keeps.refl state
    | some next =>
      simp only []
      split
      · exact Keeps.refl state
      · exact activateChecked_keeps { state with operations := next } store name

/-- An operation is counted on a configured store, which is then activated. -/
theorem recordOperation_eq_ok {name : String} {store : Store} {active : ActiveStore}
    {next : InvocationState}
    (hrecord : state.recordOperation durable name = (.ok (store, active), next)) :
    durable.stores.find name = some store ∧
      ∃ operations,
        activateChecked { state with operations } store name = (.ok active, next) := by
  unfold recordOperation at hrecord
  cases hbinding : durable.binding name with
  | error error =>
    rw [hbinding] at hrecord
    cases hrecord
  | ok found =>
    have hfind : durable.stores.find name = some found := Result.ofOption_eq_ok.mp hbinding
    rw [hbinding] at hrecord
    simp only [] at hrecord
    cases hcount : Machine.checkedAdd state.operations 1 with
    | none =>
      rw [hcount] at hrecord
      cases hrecord
    | some operations =>
      rw [hcount] at hrecord
      simp only [] at hrecord
      split at hrecord
      · cases hrecord
      · cases hactivate : activateChecked { state with operations } found name with
        | mk result counted =>
          rw [hactivate] at hrecord
          cases result with
          | error error => cases hrecord
          | ok started =>
            simp only [Except.map, Prod.mk.injEq, Except.ok.injEq] at hrecord
            obtain ⟨⟨hstore, hstarted⟩, hnext⟩ := hrecord
            subst hstore hstarted hnext
            exact ⟨hfind, operations, hactivate⟩

theorem activateChecked_active {name : String} {store : Store} {active : ActiveStore}
    {next : InvocationState}
    (hactivate : state.activateChecked store name = (.ok active, next)) :
    next.active = some active ∧ active.name = name := by
  unfold activateChecked at hactivate
  cases hactive : state.active with
  | none =>
    simp only [hactive, Prod.mk.injEq, Except.ok.injEq] at hactivate
    obtain ⟨hstarted, hnext⟩ := hactivate
    subst hnext hstarted
    exact ⟨rfl, rfl⟩
  | some old =>
    simp only [hactive] at hactivate
    by_cases hname : old.name = name
    · simp only [hname, ne_eq, not_true_eq_false, if_false, Prod.mk.injEq,
        Except.ok.injEq] at hactivate
      obtain ⟨hold, hnext⟩ := hactivate
      subst hnext hold
      exact ⟨hactive, hname⟩
    · simp only [ne_eq, hname, not_false_eq_true, if_true, Prod.mk.injEq, reduceCtorEq,
        false_and] at hactivate

/-- An operation that was counted has an active store. -/
theorem recordOperation_active {name : String} {store : Store} {active : ActiveStore}
    {next : InvocationState}
    (hrecord : state.recordOperation durable name = (.ok (store, active), next)) :
    next.active = some active ∧ active.name = name ∧ durable.stores.find name = some store := by
  obtain ⟨hfind, operations, hactivate⟩ := recordOperation_eq_ok hrecord
  obtain ⟨hactive, hname⟩ := activateChecked_active hactivate
  exact ⟨hactive, hname, hfind⟩

end InvocationState

section Rebase

variable {durable other : DurableState} {name : String} {store found : Store}

/-- Activating at another revision. -/
theorem InvocationState.activateChecked_rebase (state : InvocationState) (store found : Store)
    (target : String) :
    (state.rebase found.revision).activateChecked found target =
      ((state.activateChecked store target).1.map (ActiveStore.rebase found.revision),
        (state.activateChecked store target).2.rebase found.revision) := by
  unfold InvocationState.activateChecked InvocationState.rebase
  cases hactive : state.active with
  | none => rfl
  | some active =>
    simp only [Option.map_some]
    by_cases hname : active.name ≠ target
    · have hrebased : (active.rebase found.revision).name ≠ target := hname
      rw [if_pos hname, if_pos hrebased]
      simp [Except.map, hactive]
    · have hrebased : ¬ (active.rebase found.revision).name ≠ target := hname
      rw [if_neg hname, if_neg hrebased]
      simp [Except.map, hactive]

/-- A refused activation looks at no revision. -/
theorem InvocationState.activateChecked_refused {state : InvocationState} {target : String}
    {active : ActiveStore} (hactive : state.active = some active) (hname : active.name ≠ target)
    (store : Store) : state.activateChecked store target =
      (.error (.stateConflict "one invocation cannot transact across multiple durable stores"),
        state) := by
  unfold InvocationState.activateChecked
  simp only [hactive, if_pos hname]

/-- A store that becomes or stays active is the one that the invocation is at. -/
theorem InvocationState.activateChecked_at {state : InvocationState} {target : String}
    {revision : ℕ} (hat : (state.activateChecked store target).2.At name revision) :
    target = name ∨ ∃ active, state.active = some active ∧ active.name ≠ target := by
  cases hactive : state.active with
  | none =>
    left
    unfold InvocationState.activateChecked at hat
    rw [hactive] at hat
    exact (hat _ rfl).1
  | some active =>
    by_cases hname : active.name = target
    · left
      have hkept := (InvocationState.activateChecked_keeps state store target).at hat
      exact hname.symm.trans (hkept active hactive).1
    · exact Or.inr ⟨active, rfl, hname⟩

/-- Counting an operation on the same contents at another revision. -/
theorem InvocationState.recordOperation_rebase (hshape : durable.SameShape other)
    (hstore : durable.stores.find name = some store) (hfound : other.stores.find name = some found)
    {state : InvocationState} {target : String}
    (hat : (state.recordOperation durable target).2.At name store.revision) :
    (state.rebase found.revision).recordOperation other target =
        ((state.recordOperation durable target).1.map
            fun result => (found, result.2.rebase found.revision),
          (state.recordOperation durable target).2.rebase found.revision) ∧
      ∀ result, (state.recordOperation durable target).1 = .ok result → result.1 = store := by
  have hoperations : (state.rebase found.revision).operations = state.operations := rfl
  unfold InvocationState.recordOperation at hat ⊢
  rw [hoperations]
  rcases hshape.binding target with ⟨error, hone, htwo⟩ |
    ⟨own, own', hown, hown', hone, htwo, hlimits⟩
  · simp only [hone, htwo, Except.map, reduceCtorEq, false_implies, implies_true, and_self]
  · simp only [hone, htwo, hlimits] at hat ⊢
    cases hcount : Machine.checkedAdd state.operations 1 with
    | none => simp only [Except.map, reduceCtorEq, false_implies, implies_true, and_self]
    | some next =>
      simp only [hcount] at hat
      simp only []
      by_cases hmany : next > own.limits.maxOperations
      · simp only [if_pos hmany, Except.map, reduceCtorEq, false_implies, implies_true, and_self]
      · rw [if_neg hmany] at hat
        simp only [if_neg hmany]
        have hrebased : ({ (state.rebase found.revision) with operations := next } :
            InvocationState) =
              ({ state with operations := next } : InvocationState).rebase found.revision := rfl
        rw [hrebased]
        rcases InvocationState.activateChecked_at hat with hsame | ⟨active, hactive, hname⟩
        · -- the operation is on the store that the invocation is at
          subst hsame
          rw [hstore, Option.some.injEq] at hown
          rw [hfound, Option.some.injEq] at hown'
          subst hown hown'
          rw [InvocationState.activateChecked_rebase _ store found]
          cases (InvocationState.activateChecked { state with operations := next } store
            target).1 with
          | error error =>
            simp only [Except.map, reduceCtorEq, false_implies, implies_true, and_self]
          | ok active =>
            refine ⟨rfl, ?_⟩
            intro result hresult
            rw [Except.map, Except.ok.injEq] at hresult
            rw [← hresult]
        · have hnext : ({ state with operations := next } : InvocationState).active =
              some active := hactive
          have hstate : state.active = some active := hactive
          have hlater : (({ state with operations := next } : InvocationState).rebase
              found.revision).active = some (active.rebase found.revision) := by
            unfold InvocationState.rebase
            simp only [hstate, Option.map_some]
          rw [InvocationState.activateChecked_refused hnext hname own,
            InvocationState.activateChecked_refused hlater hname own']
          simp only [Except.map, reduceCtorEq, false_implies, implies_true, and_self]

/-- A read ends where its operation was counted. -/
theorem InvocationState.read_snd (state : InvocationState) (durable : DurableState)
    (target : String) (staged : ActiveStore → Option (Option Bytes))
    (stored : Store → ℕ → Except StateError (Option Bytes)) (message : String) :
    (state.read durable target staged stored message).2 =
      (state.recordOperation durable target).2 := by
  unfold InvocationState.read
  cases hrecord : state.recordOperation durable target with
  | mk result next =>
    cases result with
    | error error => rfl
    | ok result => rfl

/-- A write may change what is staged after its operation was counted. -/
theorem InvocationState.stage_keeps (state : InvocationState) (durable : DurableState)
    (target : String) (check : Store → ActiveStore → Except RuntimeError Unit)
    {change : ActiveStore → ActiveStore}
    (hchange : ∀ active, (change active).name = active.name ∧
      (change active).revision = active.revision) :
    (state.recordOperation durable target).2.Keeps (state.stage durable target check change).2 := by
  unfold InvocationState.stage
  cases hrecord : state.recordOperation durable target with
  | mk result next =>
    cases result with
    | error error => exact Keeps.refl next
    | ok result =>
      obtain ⟨own, active⟩ := result
      simp only []
      cases check own active with
      | error error => exact Keeps.refl next
      | ok passed =>
        intro old hold
        have hactive := (InvocationState.recordOperation_active hrecord).1
        rw [hactive, Option.some.injEq] at hold
        subst hold
        exact ⟨change active, rfl, hchange active⟩

theorem InvocationState.read_rebase (hshape : durable.SameShape other)
    (hstore : durable.stores.find name = some store) (hfound : other.stores.find name = some found)
    {state : InvocationState} {target : String}
    {staged : ActiveStore → Option (Option Bytes)}
    {stored : Store → ℕ → Except StateError (Option Bytes)} {message : String}
    (hstaged : ∀ active, staged (active.rebase found.revision) = staged active)
    (hstored : ∀ active, (state.read durable target staged stored message).2.active = some active →
      stored found found.revision = stored store store.revision)
    (hat : (state.read durable target staged stored message).2.At name store.revision) :
    (state.rebase found.revision).read other target staged stored message =
      ((state.read durable target staged stored message).1,
        (state.read durable target staged stored message).2.rebase found.revision) := by
  rw [InvocationState.read_snd] at hat hstored
  obtain ⟨hrebase, hsame⟩ := InvocationState.recordOperation_rebase hshape hstore hfound hat
  unfold InvocationState.read
  rw [hrebase]
  cases hrecord : state.recordOperation durable target with
  | mk result next =>
    rw [hrecord] at hat hsame hstored
    cases result with
    | error error => rfl
    | ok result =>
      obtain ⟨own, active⟩ := result
      have hown : own = store := hsame _ rfl
      obtain ⟨hactive, -, -⟩ := InvocationState.recordOperation_active hrecord
      have hrevision : active.revision = store.revision := (hat active hactive).2
      have hrebased : (active.rebase found.revision).revision = found.revision := rfl
      simp only [Except.map, hstaged, hrebased, hown, hrevision, hstored active hactive]

theorem InvocationState.stage_rebase (hshape : durable.SameShape other)
    (hstore : durable.stores.find name = some store) (hfound : other.stores.find name = some found)
    (hlimits : found.limits = store.limits) {state : InvocationState} {target : String}
    {check : Store → ActiveStore → Except RuntimeError Unit} {change : ActiveStore → ActiveStore}
    (hcheck : ∀ active, check found (active.rebase found.revision) = check store active)
    (hchange : ∀ active, (change active).name = active.name ∧
      (change active).revision = active.revision ∧
      change (active.rebase found.revision) = (change active).rebase found.revision)
    (hat : (state.stage durable target check change).2.At name store.revision) :
    (state.rebase found.revision).stage other target check change =
      ((state.stage durable target check change).1,
        (state.stage durable target check change).2.rebase found.revision) := by
  have hcounted := (InvocationState.stage_keeps state durable target check
    fun active => ⟨(hchange active).1, (hchange active).2.1⟩).at hat
  obtain ⟨hrebase, hsame⟩ := InvocationState.recordOperation_rebase hshape hstore hfound hcounted
  unfold InvocationState.stage
  rw [hrebase]
  cases hrecord : state.recordOperation durable target with
  | mk result next =>
    rw [hrecord] at hsame
    cases result with
    | error error => rfl
    | ok result =>
      obtain ⟨own, active⟩ := result
      have hown : own = store := hsame _ rfl
      subst hown
      simp only [Except.map, hcheck]
      cases check own active with
      | error error => rfl
      | ok passed =>
        have hvalid : ((change active).rebase found.revision).validateStaged found.limits =
            (change active).validateStaged own.limits := by
          rw [hlimits]
          rfl
        simp only [(hchange active).2.2, hvalid]
        rfl

theorem InvocationState.bind_snd (state : InvocationState) {target : String} {own : Store}
    (hbinding : durable.binding target = .ok own) :
    (state.bind durable target).2 = (state.activateChecked own target).2 := by
  unfold InvocationState.bind
  rw [hbinding]

theorem InvocationState.bind_rebase (hshape : durable.SameShape other)
    (hstore : durable.stores.find name = some store) (hfound : other.stores.find name = some found)
    {state : InvocationState} {target : String}
    (hat : (state.bind durable target).2.At name store.revision) :
    (state.rebase found.revision).bind other target =
      ((state.bind durable target).1, (state.bind durable target).2.rebase found.revision) := by
  rcases hshape.binding target with ⟨error, hone, htwo⟩ |
    ⟨own, own', hown, hown', hone, htwo, -⟩
  · simp only [InvocationState.bind, hone, htwo]
  · rw [InvocationState.bind_snd state hone] at hat
    simp only [InvocationState.bind, hone, htwo]
    rcases InvocationState.activateChecked_at hat with hsame | ⟨active, hactive, hname⟩
    · subst hsame
      rw [hstore, Option.some.injEq] at hown
      rw [hfound, Option.some.injEq] at hown'
      subst hown hown'
      rw [InvocationState.activateChecked_rebase state store found]
      cases (state.activateChecked store target).1 with
      | error error => rfl
      | ok active => rfl
    · have hlater : (state.rebase found.revision).active =
          some (active.rebase found.revision) := by
        unfold InvocationState.rebase
        simp only [hactive, Option.map_some]
      rw [InvocationState.activateChecked_refused hactive hname own,
        InvocationState.activateChecked_refused hlater hname own']

theorem InvocationState.replayBinding_rebase (hshape : durable.SameShape other)
    (hstore : durable.stores.find name = some store) (hfound : other.stores.find name = some found)
    {state : InvocationState} {target : String}
    (hat : (state.replayBinding durable target).2.At name store.revision) :
    (state.rebase found.revision).replayBinding other target =
      ((state.replayBinding durable target).1,
        (state.replayBinding durable target).2.rebase found.revision) := by
  have hcounted : (state.recordOperation durable target).2.At name store.revision := hat
  obtain ⟨hrebase, -⟩ := InvocationState.recordOperation_rebase hshape hstore hfound hcounted
  unfold InvocationState.replayBinding
  rw [hrebase]
  cases state.recordOperation durable target with
  | mk result next =>
    cases result with
    | error error => rfl
    | ok result => rfl

/-! ## Reads at a revision -/

theorem getAtRevision_congr (hlimits : found.limits = store.limits)
    (hcontents : found.contents = store.contents) (key : String) :
    found.getAtRevision key found.revision = store.getAtRevision key store.revision := by
  have hkv : found.kv.find = store.kv.find := congrArg Contents.kv hcontents
  unfold Store.getAtRevision
  rw [hlimits, hkv]
  simp only [beq_self_eq_true]

theorem checkpointAtRevision_congr (hlimits : found.limits = store.limits)
    (hcontents : found.contents = store.contents) (key : String) :
    found.checkpointAtRevision key found.revision =
      store.checkpointAtRevision key store.revision := by
  have hcheckpoints : found.checkpoints.find = store.checkpoints.find :=
    congrArg Contents.checkpoints hcontents
  unfold Store.checkpointAtRevision
  rw [hlimits, hcheckpoints]
  simp only [beq_self_eq_true]

theorem objectAtRevision_congr (hlimits : found.limits = store.limits)
    (hcontents : found.contents = store.contents) (bucket key : String) :
    found.objectAtRevision bucket key found.revision =
      store.objectAtRevision bucket key store.revision := by
  have hobjects : (found.objects.find (bucket, key)).map ObjectRow.value =
      (store.objects.find (bucket, key)).map ObjectRow.value :=
    congrFun (congrArg Contents.objects hcontents) (bucket, key)
  unfold Store.objectAtRevision
  rw [hlimits, hobjects]
  simp only [beq_self_eq_true]

/-- An operation on the same contents at another revision gives the same answer, and the
same invocation at that revision.  One that leaves no store active looks at no contents. -/
theorem InvocationState.perform_rebase (hshape : durable.SameShape other)
    (hstore : durable.stores.find name = some store) (hfound : other.stores.find name = some found)
    (state : InvocationState) (operation : Operation)
    (hcontents : ∀ active, (perform durable state operation).2.active = some active →
      found.contents = store.contents)
    (hat : (perform durable state operation).2.At name store.revision) :
    perform other (state.rebase found.revision) operation =
      ((perform durable state operation).1,
        (perform durable state operation).2.rebase found.revision) := by
  have hlimits : found.limits = store.limits := by
    have hsame := hshape.limits name
    rw [hstore, hfound, Option.map_some, Option.map_some, Option.some.injEq] at hsame
    exact hsame
  cases operation with
  | bind target => exact InvocationState.bind_rebase hshape hstore hfound hat
  | replayBinding target => exact InvocationState.replayBinding_rebase hshape hstore hfound hat
  | get target key =>
    exact InvocationState.read_rebase hshape hstore hfound (fun _ => rfl)
      (fun active hactive => getAtRevision_congr hlimits (hcontents active hactive) key) hat
  | put target key value =>
    refine InvocationState.stage_rebase hshape hstore hfound hlimits ?_
      (fun _ => ⟨rfl, rfl, rfl⟩) hat
    intro active
    rw [hlimits]
  | delete target key =>
    refine InvocationState.stage_rebase hshape hstore hfound hlimits ?_
      (fun _ => ⟨rfl, rfl, rfl⟩) hat
    intro active
    rw [hlimits]
  | checkpointGet target key =>
    exact InvocationState.read_rebase hshape hstore hfound (fun _ => rfl)
      (fun active hactive => checkpointAtRevision_congr hlimits (hcontents active hactive) key) hat
  | checkpointPut target key value =>
    refine InvocationState.stage_rebase hshape hstore hfound hlimits ?_
      (fun _ => ⟨rfl, rfl, rfl⟩) hat
    intro active
    rw [hlimits]
  | objectGet bucket key =>
    simp only [perform, objectGet] at hat hcontents ⊢
    rw [hshape.bucket_eq bucket]
    cases hbucket : durable.bucket bucket with
    | error error => rfl
    | ok resource =>
      rw [hbucket] at hat hcontents
      refine InvocationState.read_rebase hshape hstore hfound (fun _ => rfl) ?_ hat
      intro active hactive
      exact objectAtRevision_congr hlimits (hcontents active hactive) bucket key
  | objectPut bucket key value =>
    simp only [perform, objectPut] at hat ⊢
    rw [hshape.bucket_eq bucket]
    cases hbucket : durable.bucket bucket with
    | error error => rfl
    | ok resource =>
      rw [hbucket] at hat
      exact InvocationState.stage_rebase hshape hstore hfound hlimits (fun _ => rfl)
        (fun _ => ⟨rfl, rfl, rfl⟩) hat
  | objectDelete bucket key =>
    simp only [perform, objectDelete] at hat ⊢
    rw [hshape.bucket_eq bucket]
    cases hbucket : durable.bucket bucket with
    | error error => rfl
    | ok resource =>
      rw [hbucket] at hat
      exact InvocationState.stage_rebase hshape hstore hfound hlimits (fun _ => rfl)
        (fun _ => ⟨rfl, rfl, rfl⟩) hat
  | queuePublish queue body id =>
    simp only [perform, queuePublish] at hat ⊢
    rw [hshape.queue_eq queue]
    cases hqueue : durable.queue queue with
    | error error => rfl
    | ok resource =>
      rw [hqueue] at hat
      exact InvocationState.stage_rebase hshape hstore hfound hlimits (fun _ => rfl)
        (fun _ => ⟨rfl, rfl, rfl⟩) hat

/-- An operation never changes which store is active, nor its revision. -/
theorem InvocationState.perform_keeps (durable : DurableState) (state : InvocationState)
    (operation : Operation) : state.Keeps (perform durable state operation).2 := by
  have hread : ∀ target staged stored message,
      state.Keeps (state.read durable target staged stored message).2 := by
    intro target staged stored message
    rw [InvocationState.read_snd]
    exact InvocationState.recordOperation_keeps state durable target
  have hstage : ∀ target check (change : ActiveStore → ActiveStore),
      (∀ active, (change active).name = active.name ∧
        (change active).revision = active.revision) →
      state.Keeps (state.stage durable target check change).2 := by
    intro target check change hchange
    exact (InvocationState.recordOperation_keeps state durable target).trans
      (InvocationState.stage_keeps state durable target check hchange)
  cases operation with
  | bind target =>
    simp only [perform, InvocationState.bind]
    cases durable.binding target with
    | error error => exact Keeps.refl state
    | ok own => exact InvocationState.activateChecked_keeps state own target
  | replayBinding target => exact InvocationState.recordOperation_keeps state durable target
  | get target key => exact hread _ _ _ _
  | put target key value => exact hstage _ _ _ fun _ => ⟨rfl, rfl⟩
  | delete target key => exact hstage _ _ _ fun _ => ⟨rfl, rfl⟩
  | checkpointGet target key => exact hread _ _ _ _
  | checkpointPut target key value => exact hstage _ _ _ fun _ => ⟨rfl, rfl⟩
  | objectGet bucket key =>
    simp only [perform, objectGet]
    cases durable.bucket bucket with
    | error error => exact Keeps.refl state
    | ok resource => exact hread _ _ _ _
  | objectPut bucket key value =>
    simp only [perform, objectPut]
    cases durable.bucket bucket with
    | error error => exact Keeps.refl state
    | ok resource => exact hstage _ _ _ fun _ => ⟨rfl, rfl⟩
  | objectDelete bucket key =>
    simp only [perform, objectDelete]
    cases durable.bucket bucket with
    | error error => exact Keeps.refl state
    | ok resource => exact hstage _ _ _ fun _ => ⟨rfl, rfl⟩
  | queuePublish queue body id =>
    simp only [perform, queuePublish]
    cases durable.queue queue with
    | error error => exact Keeps.refl state
    | ok resource => exact hstage _ _ _ fun _ => ⟨rfl, rfl⟩

/-! ## Revisions of invocations -/

/-- The active store, if there is one, is configured, and the invocation is not ahead of
it. -/
def InvocationState.Based (durable : DurableState) (state : InvocationState) : Prop :=
  ∀ active, state.active = some active →
    ∃ store, durable.stores.find active.name = some store ∧ active.revision ≤ store.revision

theorem InvocationState.activateChecked_based {state : InvocationState} {target : String}
    (hbased : state.Based durable) (hstore : durable.stores.find target = some store) :
    (state.activateChecked store target).2.Based durable := by
  unfold InvocationState.activateChecked
  cases hactive : state.active with
  | none =>
    intro active hsome
    have hstarted : ActiveStore.start target store.revision = active := Option.some.inj hsome
    rw [← hstarted]
    exact ⟨store, hstore, le_rfl⟩
  | some active =>
    simp only []
    split
    · exact hbased
    · exact hbased

theorem InvocationState.recordOperation_based {state : InvocationState}
    (hbased : state.Based durable)
    (target : String) : (state.recordOperation durable target).2.Based durable := by
  unfold InvocationState.recordOperation
  cases hbinding : durable.binding target with
  | error error => exact hbased
  | ok store =>
    simp only []
    cases Machine.checkedAdd state.operations 1 with
    | none => exact hbased
    | some next =>
      simp only []
      split
      · exact hbased
      · have hcounted : ({ state with operations := next } : InvocationState).Based durable :=
          hbased
        exact InvocationState.activateChecked_based hcounted (Result.ofOption_eq_ok.mp hbinding)

theorem InvocationState.stage_based {state : InvocationState} (hbased : state.Based durable)
    (target : String) (check : Store → ActiveStore → Except RuntimeError Unit)
    {change : ActiveStore → ActiveStore}
    (hchange : ∀ active, (change active).name = active.name ∧
      (change active).revision = active.revision) :
    (state.stage durable target check change).2.Based durable := by
  have hcounted := InvocationState.recordOperation_based hbased target
  unfold InvocationState.stage
  cases hrecord : state.recordOperation durable target with
  | mk result next =>
    rw [hrecord] at hcounted
    cases result with
    | error error => exact hcounted
    | ok result =>
      obtain ⟨own, active⟩ := result
      simp only []
      cases check own active with
      | error error => exact hcounted
      | ok passed =>
        intro staged hstaged
        have hchanged : change active = staged := Option.some.inj hstaged
        have hactive := (InvocationState.recordOperation_active hrecord).1
        rw [← hchanged, (hchange active).1, (hchange active).2]
        exact hcounted active hactive

theorem InvocationState.perform_based {state : InvocationState} (hbased : state.Based durable)
    (operation : Operation) : (perform durable state operation).2.Based durable := by
  have hread : ∀ target staged stored message,
      (state.read durable target staged stored message).2.Based durable := by
    intro target staged stored message
    rw [InvocationState.read_snd]
    exact InvocationState.recordOperation_based hbased target
  cases operation with
  | bind target =>
    simp only [perform, InvocationState.bind]
    cases hbinding : durable.binding target with
    | error error => exact hbased
    | ok own =>
      exact InvocationState.activateChecked_based hbased (Result.ofOption_eq_ok.mp hbinding)
  | replayBinding target => exact InvocationState.recordOperation_based hbased target
  | get target key => exact hread _ _ _ _
  | put target key value => exact InvocationState.stage_based hbased _ _ fun _ => ⟨rfl, rfl⟩
  | delete target key => exact InvocationState.stage_based hbased _ _ fun _ => ⟨rfl, rfl⟩
  | checkpointGet target key => exact hread _ _ _ _
  | checkpointPut target key value =>
    exact InvocationState.stage_based hbased _ _ fun _ => ⟨rfl, rfl⟩
  | objectGet bucket key =>
    simp only [perform, objectGet]
    cases durable.bucket bucket with
    | error error => exact hbased
    | ok resource => exact hread _ _ _ _
  | objectPut bucket key value =>
    simp only [perform, objectPut]
    cases durable.bucket bucket with
    | error error => exact hbased
    | ok resource => exact InvocationState.stage_based hbased _ _ fun _ => ⟨rfl, rfl⟩
  | objectDelete bucket key =>
    simp only [perform, objectDelete]
    cases durable.bucket bucket with
    | error error => exact hbased
    | ok resource => exact InvocationState.stage_based hbased _ _ fun _ => ⟨rfl, rfl⟩
  | queuePublish queue body id =>
    simp only [perform, queuePublish]
    cases durable.queue queue with
    | error error => exact hbased
    | ok resource => exact InvocationState.stage_based hbased _ _ fun _ => ⟨rfl, rfl⟩

end Rebase

/-! ## What a read observes -/

/-- What a read looks up in the contents that the invocation sees. -/
def Operation.observed (contents : Contents) : Operation → Option (Option Bytes)
  | .get _ key => some (contents.kv key)
  | .checkpointGet _ name => some (contents.checkpoints name)
  | .objectGet bucket key => some (contents.objects (bucket, key))
  | _ => none

theorem decodeValue_eq_ok {message : String} {bytes : Option Bytes} {value : Option String}
    (hdecode : decodeValue message bytes = .ok value) : bytes = value.map textBytes := by
  cases bytes with
  | none =>
    rw [decodeValue, Result.pure_eq_ok] at hdecode
    rw [← hdecode]
    rfl
  | some bytes =>
    simp only [decodeValue, Result.bind_eq_ok, Result.ofOption_eq_ok, Result.pure_eq_ok] at hdecode
    obtain ⟨text, htext, hvalue⟩ := hdecode
    rw [← hvalue]
    unfold String.fromUTF8? at htext
    split at htext
    · rw [Option.some.injEq] at htext
      rw [← htext]
      unfold textBytes
      simp [String.fromUTF8]
    · cases htext

section Observed

variable {durable : DurableState} {name : String} {store : Store}

theorem ActiveStore.view_start (target : String) (revision : ℕ) (contents : Contents) :
    (ActiveStore.start target revision).view contents = contents := by
  unfold ActiveStore.view ActiveStore.start
  simp

theorem InvocationState.activateChecked_view {state next : InvocationState} {target : String}
    {own : Store} {active : ActiveStore}
    (hactivate : state.activateChecked own target = (.ok active, next)) (contents : Contents) :
    active.view contents = state.view contents ∧ next.view contents = state.view contents := by
  unfold InvocationState.activateChecked at hactivate
  unfold InvocationState.view
  cases hactive : state.active with
  | none =>
    simp only [hactive, Prod.mk.injEq, Except.ok.injEq] at hactivate
    rw [← hactivate.1, ← hactivate.2]
    exact ⟨ActiveStore.view_start _ _ _, ActiveStore.view_start _ _ _⟩
  | some old =>
    simp only [hactive] at hactivate
    split at hactivate
    · simp only [Prod.mk.injEq, reduceCtorEq, false_and] at hactivate
    · simp only [Prod.mk.injEq, Except.ok.injEq] at hactivate
      rw [← hactivate.1, ← hactivate.2, hactive]
      exact ⟨rfl, rfl⟩

/-- Counting an operation stages nothing. -/
theorem InvocationState.recordOperation_view {state next : InvocationState} {target : String}
    {own : Store} {active : ActiveStore}
    (hrecord : state.recordOperation durable target = (.ok (own, active), next))
    (contents : Contents) :
    active.view contents = state.view contents ∧ next.view contents = state.view contents := by
  obtain ⟨-, operations, hactivate⟩ := InvocationState.recordOperation_eq_ok hrecord
  exact InvocationState.activateChecked_view hactivate contents

/-- A read that succeeds returns what is staged, or else what the store has. -/
theorem InvocationState.read_observed (base : Option Bytes) {state next : InvocationState}
    {target : String}
    {staged : ActiveStore → Option (Option Bytes)}
    {stored : Store → ℕ → Except StateError (Option Bytes)} {message : String}
    {value : Option String}
    (hread : state.read durable target staged stored message = (.ok value, next))
    (hstore : durable.stores.find name = some store) (hat : next.At name store.revision)
    (hstored : ∀ found, stored store store.revision = .ok found → found = base) :
    ∃ active, (∀ contents, active.view contents = state.view contents) ∧
      (staged active).elim base id = value.map textBytes := by
  unfold InvocationState.read at hread
  cases hrecord : state.recordOperation durable target with
  | mk result counted =>
    rw [hrecord] at hread
    cases result with
    | error error => cases hread
    | ok result =>
      obtain ⟨own, active⟩ := result
      simp only [Prod.mk.injEq, Result.bind_eq_ok] at hread
      obtain ⟨⟨found, hfound, hdecode⟩, hnext⟩ := hread
      subst hnext
      obtain ⟨hactive, hname, hown⟩ := InvocationState.recordOperation_active hrecord
      obtain ⟨hsame, hrevision⟩ := hat active hactive
      rw [← hname, hsame, hstore, Option.some.injEq] at hown
      subst hown
      refine ⟨active, fun contents => (InvocationState.recordOperation_view hrecord contents).1, ?_⟩
      rw [← decodeValue_eq_ok hdecode]
      cases hstaged : staged active with
      | some entry =>
        rw [hstaged, Result.pure_eq_ok] at hfound
        exact hfound
      | none =>
        rw [hstaged, hrevision] at hfound
        cases hread : stored store store.revision with
        | error error =>
          rw [hread] at hfound
          cases hfound
        | ok entry =>
          rw [hread] at hfound
          simp only [Except.mapError, Except.ok.injEq] at hfound
          rw [← hfound]
          exact (hstored entry hread).symm

/-- A read observes the contents through what the invocation has staged. -/
theorem InvocationState.perform_observed {state next : InvocationState} {operation : Operation}
    {value : Option String} {found : Option Bytes}
    (hperform : perform durable state operation = (.ok value, next))
    (hstore : durable.stores.find name = some store) (hat : next.At name store.revision)
    (hobserved : operation.observed (state.view store.contents) = some found) :
    found = value.map textBytes := by
  cases operation with
  | get target key =>
    rw [Operation.observed, Option.some.injEq] at hobserved
    obtain ⟨active, hview, hvalue⟩ := InvocationState.read_observed (store.kv.find key)
      hperform hstore hat (by
        intro entry hentry
        simp only [Store.getAtRevision, Result.bind_eq_ok, Result.pure_eq_ok] at hentry
        obtain ⟨_, -, _, -, heq⟩ := hentry
        exact heq.symm)
    rw [← hobserved, ← hview, ← hvalue]
    rfl
  | checkpointGet target key =>
    rw [Operation.observed, Option.some.injEq] at hobserved
    obtain ⟨active, hview, hvalue⟩ :=
      InvocationState.read_observed (store.checkpoints.find key) hperform hstore hat (by
        intro entry hentry
        simp only [Store.checkpointAtRevision, Result.bind_eq_ok, Result.pure_eq_ok] at hentry
        obtain ⟨_, -, _, -, heq⟩ := hentry
        exact heq.symm)
    rw [← hobserved, ← hview, ← hvalue]
    have hviewed : (active.view store.contents).checkpoints key =
        (active.checkpoints[key]?).elim (store.checkpoints.find key) some := rfl
    rw [hviewed]
    cases active.checkpoints[key]? with
    | none => rfl
    | some entry => rfl
  | objectGet bucket key =>
    rw [Operation.observed, Option.some.injEq] at hobserved
    simp only [perform, objectGet] at hperform
    cases hbucket : durable.bucket bucket with
    | error error =>
      rw [hbucket] at hperform
      cases hperform
    | ok resource =>
      rw [hbucket] at hperform
      obtain ⟨active, hview, hvalue⟩ := InvocationState.read_observed
        ((store.objects.find (bucket, key)).map ObjectRow.value) hperform hstore hat (by
          intro entry hentry
          simp only [Store.objectAtRevision, Result.bind_eq_ok, Result.pure_eq_ok] at hentry
          obtain ⟨_, -, _, -, _, -, heq⟩ := hentry
          exact heq.symm)
      rw [← hobserved, ← hview, ← hvalue]
      rfl
  | _ => cases hobserved

end Observed

/-! ## What a write stages -/

/-- The mutation that an operation stages, if it is a write. -/
def Operation.staged : Operation → Option Mutation
  | .put _ key value => some (.put key (textBytes value))
  | .delete _ key => some (.delete key)
  | .checkpointPut _ name value => some (.checkpointPut name (textBytes value))
  | .objectPut bucket key value => some (.objectPut bucket key (textBytes value))
  | .objectDelete bucket key => some (.objectDelete bucket key)
  | .queuePublish queue body id => some (.queuePublish queue id (textBytes body))
  | _ => none

section Staging

variable {durable : DurableState} (contents : Contents)

theorem ActiveStore.view_values (active : ActiveStore) (key : String) (value : Option Bytes) :
    ({ active with values := active.values.insert key value } : ActiveStore).view contents =
      (active.view contents).apply (valueMutation (key, value)) := by
  have hvalues := Overlay.elim_insert id contents.kv active.values key value
  have hview : ({ active with values := active.values.insert key value } :
      ActiveStore).view contents =
      { active.view contents with kv := Function.update (active.view contents).kv key value } :=
    Contents.ext hvalues rfl rfl
  rw [hview]
  cases value with
  | none => rfl
  | some value => rfl

theorem ActiveStore.view_checkpoints (active : ActiveStore) (name : String) (value : Bytes) :
    ({ active with checkpoints := active.checkpoints.insert name value } : ActiveStore).view
        contents =
      (active.view contents).apply (.checkpointPut name value) :=
  Contents.ext rfl (Overlay.elim_insert some contents.checkpoints active.checkpoints name value) rfl

theorem ActiveStore.view_objects (active : ActiveStore) (bucket key : String)
    (value : Option Bytes) :
    ({ active with objects := active.objects.insert (bucket, key) value } : ActiveStore).view
        contents =
      (active.view contents).apply (objectMutation ((bucket, key), value)) := by
  have hobjects := Overlay.elim_insert id contents.objects active.objects (bucket, key) value
  have hview : ({ active with objects := active.objects.insert (bucket, key) value } :
      ActiveStore).view contents =
      { active.view contents with
        objects := Function.update (active.view contents).objects (bucket, key) value } :=
    Contents.ext rfl rfl hobjects
  rw [hview]
  cases value with
  | none => rfl
  | some value => rfl

theorem InvocationState.read_view {state next : InvocationState} {target : String}
    {staged : ActiveStore → Option (Option Bytes)}
    {stored : Store → ℕ → Except StateError (Option Bytes)} {message : String}
    {value : Option String}
    (hread : state.read durable target staged stored message = (.ok value, next)) :
    next.view contents = state.view contents := by
  unfold InvocationState.read at hread
  cases hrecord : state.recordOperation durable target with
  | mk result counted =>
    rw [hrecord] at hread
    cases result with
    | error error => cases hread
    | ok result =>
      simp only [Prod.mk.injEq] at hread
      rw [← hread.2]
      exact (InvocationState.recordOperation_view hrecord contents).2

/-- A write that succeeds shows what its change stages. -/
theorem InvocationState.stage_view {state next : InvocationState} {target : String}
    {check : Store → ActiveStore → Except RuntimeError Unit} {change : ActiveStore → ActiveStore}
    {mutation : Mutation} {value : Option String}
    (hchange : ∀ active, (change active).view contents = (active.view contents).apply mutation)
    (hstage : state.stage durable target check change = (.ok value, next)) :
    next.view contents = (state.view contents).apply mutation := by
  unfold InvocationState.stage at hstage
  cases hrecord : state.recordOperation durable target with
  | mk result counted =>
    rw [hrecord] at hstage
    cases result with
    | error error => cases hstage
    | ok result =>
      obtain ⟨own, active⟩ := result
      simp only [] at hstage
      cases hcheck : check own active with
      | error error =>
        rw [hcheck] at hstage
        cases hstage
      | ok passed =>
        rw [hcheck] at hstage
        simp only [Prod.mk.injEq] at hstage
        rw [← hstage.2, ← (InvocationState.recordOperation_view hrecord contents).1]
        exact hchange active

/-- After an operation that succeeds the invocation sees the contents with the mutation of
the operation applied; one that is no write changes nothing that is seen. -/
theorem InvocationState.perform_view {state next : InvocationState} {operation : Operation}
    {value : Option String} (hperform : perform durable state operation = (.ok value, next)) :
    next.view contents =
      (operation.staged).elim (state.view contents) (state.view contents).apply := by
  cases operation with
  | bind target =>
    simp only [perform, InvocationState.bind] at hperform
    cases hbinding : durable.binding target with
    | error error =>
      rw [hbinding] at hperform
      cases hperform
    | ok own =>
      rw [hbinding] at hperform
      simp only [] at hperform
      cases hactivate : state.activateChecked own target with
      | mk result after =>
        rw [hactivate] at hperform
        cases result with
        | error error => cases hperform
        | ok active =>
          simp only [Prod.mk.injEq] at hperform
          rw [← hperform.2]
          exact (InvocationState.activateChecked_view hactivate contents).2
  | replayBinding target =>
    simp only [perform, replayBinding] at hperform
    cases hrecord : state.recordOperation durable target with
    | mk result counted =>
      rw [hrecord] at hperform
      cases result with
      | error error => cases hperform
      | ok result =>
        simp only [Prod.mk.injEq] at hperform
        rw [← hperform.2]
        exact (InvocationState.recordOperation_view hrecord contents).2
  | get target key => exact InvocationState.read_view contents hperform
  | put target key value =>
    exact InvocationState.stage_view contents
      (fun active => active.view_values contents key (some (textBytes value))) hperform
  | delete target key =>
    exact InvocationState.stage_view contents
      (fun active => active.view_values contents key none) hperform
  | checkpointGet target key => exact InvocationState.read_view contents hperform
  | checkpointPut target key value =>
    exact InvocationState.stage_view contents
      (fun active => active.view_checkpoints contents key (textBytes value)) hperform
  | objectGet bucket key =>
    simp only [perform, objectGet] at hperform
    cases hbucket : durable.bucket bucket with
    | error error =>
      rw [hbucket] at hperform
      cases hperform
    | ok resource =>
      rw [hbucket] at hperform
      exact InvocationState.read_view contents hperform
  | objectPut bucket key value =>
    simp only [perform, objectPut] at hperform
    cases hbucket : durable.bucket bucket with
    | error error =>
      rw [hbucket] at hperform
      cases hperform
    | ok resource =>
      rw [hbucket] at hperform
      exact InvocationState.stage_view contents
        (fun active => active.view_objects contents bucket key (some (textBytes value))) hperform
  | objectDelete bucket key =>
    simp only [perform, objectDelete] at hperform
    cases hbucket : durable.bucket bucket with
    | error error =>
      rw [hbucket] at hperform
      cases hperform
    | ok resource =>
      rw [hbucket] at hperform
      exact InvocationState.stage_view contents
        (fun active => active.view_objects contents bucket key none) hperform
  | queuePublish queue body id =>
    simp only [perform, queuePublish] at hperform
    cases hqueue : durable.queue queue with
    | error error =>
      rw [hqueue] at hperform
      cases hperform
    | ok resource =>
      rw [hqueue] at hperform
      -- publications are staged beside the contents
      have hchange : ∀ active : ActiveStore,
          ({ active with publishes := active.publishes ++ [(queue, id, textBytes body)] } :
            ActiveStore).view contents =
            (active.view contents).apply (.queuePublish queue id (textBytes body)) :=
        fun _ => rfl
      exact InvocationState.stage_view contents hchange hperform

end Staging

end Krit.Durable
