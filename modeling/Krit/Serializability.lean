import Krit.InvocationViews

/-!
# Invocations are serializable

Any number of invocations interleave their operations with each other and with other
transactions on the stores.  An invocation whose commit with writes succeeds has seen,
from its first operation to its commit, the contents that were there just before the
commit, so that running the writers one after another gives the same answers and the
same contents.

Each invocation carries the trace of its operations, and the world carries a log of
the commits; no step looks at them.
-/

namespace Krit.Durable

open Machine Std

/-! ## The world -/

abbrev Answer := Except RuntimeError (Option String)

/-- An invocation with its operations so far; it ends with its commit. -/
structure Invocation where
  state : InvocationState
  trace : List (Operation × Answer)
  result : Option (Except RuntimeError Unit)

def Invocation.new : Invocation := { state := .new, trace := [], result := none }

/-- A commit that succeeded: the operations of its invocation, what was staged, and the
stores just before it. -/
structure Committed where
  trace : List (Operation × Answer)
  active : ActiveStore
  before : DurableState

structure World where
  durable : DurableState
  invocations : ℕ → Invocation
  commits : List Committed

inductive Action where
  | operate (id : ℕ) (operation : Operation)
  | commit (id : ℕ) (completion : Option Completion) (nowMillis : ℤ)
  | transact (store : String) (call : { call : Call // call.area ≠ .outcome })

def World.open (durable : DurableState) : World :=
  { durable, invocations := fun _ => .new, commits := [] }

def World.step (world : World) : Action → World
  | .operate id operation =>
      let invocation := world.invocations id
      match invocation.result with
      | some _ => world
      | none =>
          let (answer, state) := InvocationState.perform world.durable invocation.state operation
          { world with
            invocations := Function.update world.invocations id
              { invocation with state, trace := invocation.trace ++ [(operation, answer)] } }
  | .commit id completion nowMillis =>
      let invocation := world.invocations id
      match invocation.result with
      | some _ => world
      | none =>
          let (outcome, state) := invocation.state.commitOutcome world.durable completion nowMillis
          let invocations := Function.update world.invocations id
            { invocation with state, result := some (outcome.map fun _ => ()) }
          match outcome with
          | .error _ => { world with invocations }
          | .ok durable =>
              let commit := invocation.state.active.map fun active =>
                { trace := invocation.trace, active, before := world.durable }
              { durable, invocations, commits := world.commits ++ commit.toList }
  | .transact name call =>
      match world.durable.stores.find name with
      | none => world
      | some store =>
          { world with durable := world.durable.setStore name (store.step call.1).2 }

def World.run (world : World) (actions : List Action) : World := actions.foldl World.step world

/-! ## Running alone -/

/-- Runs operations one after another from a new invocation. -/
def runAlone (durable : DurableState) (operations : List Operation) : InvocationState :=
  History.run (InvocationState.perform durable) .new operations

/-- The operations that are run alone, with their answers. -/
def traceAlone (durable : DurableState) (operations : List Operation) :
    List (Operation × Answer) :=
  History.history (InvocationState.perform durable) .new operations

/-- On every store with these contents, the operations of the trace give its answers and
end in the state, at the revision of that store. -/
def RunsAlone (start : DurableState) (name : String) (contents : Contents)
    (trace : List (Operation × Answer)) (state : InvocationState) : Prop :=
  ∀ other found, start.SameShape other → other.stores.find name = some found →
    found.contents = contents →
      traceAlone other (trace.map Prod.fst) = trace ∧
        runAlone other (trace.map Prod.fst) = state.rebase found.revision

/-- Running the operations of a writer alone on contents, wherever they are stored, gives
the answers of its trace and turns the contents into others. -/
def Committed.Turns (start : DurableState) (name : String) (writer : Committed)
    (before after : Contents) : Prop :=
  ∀ other found, start.SameShape other → other.stores.find name = some found →
    found.contents = before →
      traceAlone other (writer.trace.map Prod.fst) = writer.trace ∧
        (runAlone other (writer.trace.map Prod.fst)).view before = after

/-- Writers that run one after another. -/
inductive Serial (start : DurableState) (name : String) :
    Contents → List Committed → Contents → Prop where
  | done (contents : Contents) : Serial start name contents [] contents
  | next {before middle after : Contents} {writers : List Committed} (writer : Committed) :
      Serial start name before writers middle → writer.Turns start name middle after →
        Serial start name before (writers ++ [writer]) after

/-- The commits with writes on one store, in their order. -/
def writersOf (name : String) (commits : List Committed) : List Committed :=
  commits.filter fun commit => commit.active.name == name && commit.active.writes

/-- Every successful read of the writer has observed the contents of the store just before
its commit, with its own earlier writes over them; and alone on that store it would have
done the same. -/
def Committed.Isolated (writer : Committed) : Prop :=
  ∃ store, writer.before.stores.find writer.active.name = some store ∧
    traceAlone writer.before (writer.trace.map Prod.fst) = writer.trace ∧
    (runAlone writer.before (writer.trace.map Prod.fst)).active = some writer.active ∧
    ∀ earlier operation value later found,
      writer.trace = earlier ++ (operation, .ok value) :: later →
      operation.observed ((runAlone writer.before (earlier.map Prod.fst)).view store.contents) =
        some found →
      found = value.map textBytes

/-! ## Facts about running alone -/

section Alone

variable {durable : DurableState} {name : String} {store : Store}

theorem InvocationState.run_keeps (durable : DurableState) (state : InvocationState)
    (operations : List Operation) :
    state.Keeps (History.run (InvocationState.perform durable) state operations) := by
  induction operations generalizing state with
  | nil => exact Keeps.refl state
  | cons operation rest ih =>
    rw [History.run_cons]
    exact (InvocationState.perform_keeps durable state operation).trans (ih _)

theorem InvocationState.view_rebase (state : InvocationState) (revision : ℕ)
    (contents : Contents) : (state.rebase revision).view contents = state.view contents := by
  unfold InvocationState.view InvocationState.rebase
  cases state.active with
  | none => rfl
  | some active => rfl

theorem InvocationState.rebase_self {state : InvocationState} {revision : ℕ}
    (hat : state.At name revision) : state.rebase revision = state := by
  unfold InvocationState.rebase
  cases hactive : state.active with
  | none =>
    rw [Option.map_none, ← hactive]
  | some active =>
    have hrevision := (hat active hactive).2
    have hsame : active.rebase revision = active := by
      rw [← hrevision]
      rfl
    rw [Option.map_some, hsame, ← hactive]

theorem runAlone_concat (durable : DurableState) (operations : List Operation)
    (operation : Operation) :
    runAlone durable (operations ++ [operation]) =
      (InvocationState.perform durable (runAlone durable operations) operation).2 := by
  unfold runAlone
  rw [History.run_append]
  rfl

theorem traceAlone_concat (durable : DurableState) (operations : List Operation)
    (operation : Operation) :
    traceAlone durable (operations ++ [operation]) = traceAlone durable operations ++
      [(operation,
        (InvocationState.perform durable (runAlone durable operations) operation).1)] := by
  unfold traceAlone runAlone
  rw [History.history_append]
  rfl

/-- Operations that all succeed alone show the contents with their writes applied in their
order. -/
theorem runAlone_view (durable : DurableState) (contents : Contents)
    {operations : List Operation}
    (hanswers : ∀ entry ∈ traceAlone durable operations, ∃ value, entry.2 = .ok value) :
    (runAlone durable operations).view contents =
      (operations.filterMap Operation.staged).foldl Contents.apply contents := by
  induction operations using List.reverseRecOn with
  | nil => rfl
  | append_singleton operations operation ih =>
    rw [traceAlone_concat] at hanswers
    have hearlier := ih fun entry hentry => hanswers entry (List.mem_append_left _ hentry)
    obtain ⟨value, hvalue⟩ := hanswers _ (List.mem_append_right _ (List.mem_singleton_self _))
    rw [runAlone_concat, InvocationState.perform_view contents (Prod.ext hvalue rfl), hearlier,
      List.filterMap_append, List.foldl_append]
    cases hstaged : operation.staged with
    | none => simp [hstaged]
    | some mutation => simp [hstaged]

/-- Each answer of a trace that was run alone is the answer of its operation after the
earlier ones. -/
theorem answer_of_traceAlone {trace earlier later : List (Operation × Answer)}
    {operation : Operation} {answer : Answer}
    (halone : traceAlone durable (trace.map Prod.fst) = trace)
    (hsplit : trace = earlier ++ (operation, answer) :: later) :
    (InvocationState.perform durable (runAlone durable (earlier.map Prod.fst)) operation).1 =
      answer := by
  rw [hsplit, List.map_append, List.map_cons] at halone
  unfold traceAlone at halone
  rw [History.history_append] at halone
  have hlength : (History.history (InvocationState.perform durable) InvocationState.new
      (earlier.map Prod.fst)).length = earlier.length := by simp
  obtain ⟨-, hrest⟩ := List.append_inj halone hlength
  rw [History.history, List.cons.injEq, Prod.mk.injEq] at hrest
  exact hrest.1.2

/-- A writer that runs alone is isolated. -/
theorem Committed.isolated {writer : Committed} {state : InvocationState}
    (hstore : writer.before.stores.find writer.active.name = some store)
    (hrevision : writer.active.revision = store.revision)
    (htrace : traceAlone writer.before (writer.trace.map Prod.fst) = writer.trace)
    (hrun : runAlone writer.before (writer.trace.map Prod.fst) = state)
    (hactive : state.active = some writer.active) : writer.Isolated := by
  refine ⟨store, hstore, htrace, by rw [hrun, hactive], ?_⟩
  intro earlier operation value later found hsplit hobserved
  have hanswer := answer_of_traceAlone htrace hsplit
  have hfinal : state.At writer.active.name store.revision := by
    intro active hsome
    rw [hactive, Option.some.injEq] at hsome
    subst hsome
    exact ⟨rfl, hrevision⟩
  -- the active store of the final state is the one that was active all along
  have hkeeps : (InvocationState.perform writer.before
      (runAlone writer.before (earlier.map Prod.fst)) operation).2.Keeps state := by
    rw [← hrun, hsplit, List.map_append, List.map_cons]
    unfold runAlone
    rw [History.run_append, History.run_cons]
    exact InvocationState.run_keeps _ _ _
  exact InvocationState.perform_observed (Prod.ext hanswer rfl) hstore (hkeeps.at hfinal) hobserved

end Alone

/-! ## What a step does -/

/-- A commit that succeeds has nothing to do, or commits what is staged on its store. -/
theorem InvocationState.commitOutcome_eq_ok {state : InvocationState} {durable next : DurableState}
    {completion : Option Completion} {nowMillis : ℤ}
    (hcommit : (state.commitOutcome durable completion nowMillis).1 = .ok next) :
    ((∀ active, state.active = some active → active.mutations = []) ∧ next = durable) ∨
    ∃ active store after revision plan, state.active = some active ∧
      durable.stores.find active.name = some store ∧
      store.commitPlan plan = .ok (revision, after) ∧ plan.mutations = active.mutations ∧
      plan.expectedRevision = active.revision ∧ next = durable.setStore active.name after := by
  unfold InvocationState.commitOutcome at hcommit
  cases hactive : state.active with
  | none =>
    rw [hactive] at hcommit
    simp only [] at hcommit
    split at hcommit
    · cases hcommit
    · rw [Except.ok.injEq] at hcommit
      exact Or.inl ⟨by simp, hcommit.symm⟩
  | some active =>
    rw [hactive] at hcommit
    simp only [] at hcommit
    split at hcommit
    · rename_i hempty
      rw [Bool.and_eq_true, List.isEmpty_iff] at hempty
      rw [Except.ok.injEq] at hcommit
      refine Or.inl ⟨?_, hcommit.symm⟩
      intro found hfound
      rw [Option.some.injEq] at hfound
      rw [← hfound]
      exact hempty.1
    · right
      simp only [Result.bind_eq_ok, Result.pure_eq_ok] at hcommit
      obtain ⟨store, hstore, ⟨revision, after⟩, hplan, hnext⟩ := hcommit
      have hfind : durable.stores.find active.name = some store := Result.ofOption_eq_ok.mp hstore
      cases hresult : store.commitPlan
          { expectedRevision := active.revision
            mutations := active.mutations
            queues := durable.queuePolicies
            buckets := durable.bucketPolicies
            nowMillis
            completion } with
      | error error =>
        rw [hresult] at hplan
        cases hplan
      | ok result =>
        rw [hresult] at hplan
        simp only [Except.mapError, Except.ok.injEq] at hplan
        rw [hplan] at hresult
        exact ⟨active, store, after, revision, _, rfl, hfind, hresult, rfl, rfl, hnext.symm⟩

/-- The stores after a step: the same configuration, and each store follows. -/
structure DurableState.Follows (before after : DurableState) : Prop where
  shape : before.SameShape after
  stores : ∀ name store, before.stores.find name = some store →
    ∃ later, after.stores.find name = some later ∧ store.Follows later

theorem DurableState.Follows.refl (durable : DurableState) : durable.Follows durable where
  shape := .refl durable
  stores := fun _ store hfind => ⟨store, hfind, .refl store⟩

theorem DurableState.Follows.setStore {durable : DurableState} {name : String}
    {store next : Store} (hfind : durable.stores.find name = some store)
    (hfollows : store.Follows next) : durable.Follows (durable.setStore name next) where
  shape := .setStore hfind hfollows.limits
  stores := by
    intro other found hfound
    rw [find_setStore]
    by_cases hsame : other = name
    · rw [if_pos hsame, hfound, Option.map_some]
      rw [hsame, hfind, Option.some.injEq] at hfound
      subst hfound
      exact ⟨next, rfl, hfollows⟩
    · rw [if_neg hsame]
      exact ⟨found, hfound, .refl found⟩

theorem InvocationState.commitOutcome_follows {state : InvocationState}
    {durable next : DurableState} {completion : Option Completion} {nowMillis : ℤ}
    (hcommit : (state.commitOutcome durable completion nowMillis).1 = .ok next) :
    durable.Follows next := by
  rcases InvocationState.commitOutcome_eq_ok hcommit with ⟨-, hnext⟩ |
    ⟨active, store, after, revision, plan, -, hstore, hplan, -, -, hnext⟩
  · rw [hnext]
    exact .refl durable
  · rw [hnext]
    exact .setStore hstore (Store.commitPlan_follows hplan)

/-- A store keeps its contents under a commit without writes on it. -/
theorem InvocationState.commitOutcome_contents {state : InvocationState}
    {durable next : DurableState} {completion : Option Completion} {nowMillis : ℤ}
    (hcommit : (state.commitOutcome durable completion nowMillis).1 = .ok next) {name : String}
    {store : Store} (hstore : durable.stores.find name = some store)
    (hother : ∀ active, state.active = some active → active.name = name → active.writes = false) :
    ∃ later, next.stores.find name = some later ∧ later.contents = store.contents := by
  rcases InvocationState.commitOutcome_eq_ok hcommit with ⟨-, hnext⟩ |
    ⟨active, own, after, revision, plan, hactive, hown, hplan, hmutations, -, hnext⟩
  · rw [hnext]
    exact ⟨store, hstore, rfl⟩
  · rw [hnext, DurableState.find_setStore]
    by_cases hsame : name = active.name
    · have hwrites := hother active hactive hsame.symm
      unfold ActiveStore.writes at hwrites
      rw [hsame, hown, Option.some.injEq] at hstore
      subst hstore
      obtain ⟨-, hcontents, -, -⟩ := Store.commitPlan_contents hplan
      rw [hmutations, foldl_apply_of_not_writes own.contents hwrites] at hcontents
      rw [if_pos hsame, hsame, hown]
      exact ⟨after, rfl, hcontents⟩
    · rw [if_neg hsame]
      exact ⟨store, hstore, rfl⟩

/-- A commit with writes finds its store at its revision, and writes what is staged. -/
theorem InvocationState.commitOutcome_writes {state : InvocationState}
    {durable next : DurableState} {completion : Option Completion} {nowMillis : ℤ}
    (hcommit : (state.commitOutcome durable completion nowMillis).1 = .ok next)
    {active : ActiveStore} (hactive : state.active = some active) (hwrites : active.writes = true) :
    ∃ store later, durable.stores.find active.name = some store ∧
      active.revision = store.revision ∧ next.stores.find active.name = some later ∧
      later.contents = active.view store.contents := by
  rcases InvocationState.commitOutcome_eq_ok hcommit with ⟨hempty, -⟩ |
    ⟨own, store, after, revision, plan, hown, hstore, hplan, hmutations, hexpected, hnext⟩
  · unfold ActiveStore.writes at hwrites
    rw [hempty active hactive] at hwrites
    cases hwrites
  · rw [hactive, Option.some.injEq] at hown
    subst hown
    obtain ⟨-, hcontents, hrevision, -⟩ := Store.commitPlan_contents hplan
    unfold ActiveStore.writes at hwrites
    rw [hmutations] at hcontents hrevision
    refine ⟨store, after, hstore, ?_, ?_, ?_⟩
    · rw [(hrevision hwrites).1, hexpected]
    · rw [hnext, DurableState.find_setStore, if_pos rfl, hstore, Option.map_some]
    · rw [hcontents, ActiveStore.foldl_mutations]

/-! ## Every invocation -/

/-- An invocation that is running: its revision is not ahead of its store, and its trace
runs alone on the contents of its store as long as that is at its revision. -/
structure Invocation.Sound (start durable : DurableState) (invocation : Invocation) : Prop where
  based : invocation.state.Based durable
  alone : ∀ name contents,
    (∀ active, invocation.state.active = some active → active.name = name ∧
      ∃ store, durable.stores.find name = some store ∧ active.revision = store.revision ∧
        store.contents = contents) →
    RunsAlone start name contents invocation.trace invocation.state

theorem Invocation.Sound.new (start durable : DurableState) :
    Invocation.new.Sound start durable where
  based := by
    intro active hactive
    cases hactive
  alone := by
    intro name contents _ other found _ _ _
    exact ⟨rfl, rfl⟩

/-- Whatever the others do: as long as the revision is the same, the contents are. -/
theorem Invocation.Sound.follows {start durable later : DurableState} {invocation : Invocation}
    (hsound : invocation.Sound start durable) (hfollows : durable.Follows later) :
    invocation.Sound start later where
  based := by
    intro active hactive
    obtain ⟨store, hstore, hle⟩ := hsound.based active hactive
    obtain ⟨next, hnext, hstep⟩ := hfollows.stores active.name store hstore
    have hrevision := hstep.revision
    exact ⟨next, hnext, by omega⟩
  alone := by
    intro name contents hat
    refine hsound.alone name contents ?_
    intro active hactive
    obtain ⟨hname, next, hnext, hrevision, hcontents⟩ := hat active hactive
    obtain ⟨store, hstore, hle⟩ := hsound.based active hactive
    obtain ⟨found, hfound, hstep⟩ := hfollows.stores active.name store hstore
    rw [hname, hnext, Option.some.injEq] at hfound
    subst hfound
    have hadvance := hstep.revision
    have hsame : store.revision = next.revision := by omega
    refine ⟨hname, store, hname ▸ hstore, by omega, ?_⟩
    rw [← hstep.contents hsame]
    exact hcontents

theorem Invocation.Sound.perform {start durable : DurableState} {invocation : Invocation}
    (hshape : start.SameShape durable) (hsound : invocation.Sound start durable)
    {operation : Operation} {answer : Answer} {state : InvocationState}
    (hperform : InvocationState.perform durable invocation.state operation = (answer, state)) :
    Invocation.Sound start durable
      { invocation with state, trace := invocation.trace ++ [(operation, answer)] } where
  based := by
    have hbased := InvocationState.perform_based hsound.based operation
    rw [hperform] at hbased
    exact hbased
  alone := by
    intro name contents hat other found hother hfound hcontents
    have hkeeps := InvocationState.perform_keeps durable invocation.state operation
    rw [hperform] at hkeeps
    -- what is active after the operation was active before, if anything was
    have hbefore : RunsAlone start name contents invocation.trace invocation.state := by
      refine hsound.alone name contents ?_
      intro active hactive
      obtain ⟨later, hlater, hname, hrevision⟩ := hkeeps active hactive
      obtain ⟨hsame, store, hstore, heq, hstored⟩ := hat later hlater
      exact ⟨hname.symm.trans hsame, store, hstore, hrevision.symm.trans heq, hstored⟩
    obtain ⟨htrace, hrun⟩ := hbefore other found hother hfound hcontents
    have hshape' := hshape.symm.trans hother
    obtain ⟨store, hstore⟩ : ∃ store, durable.stores.find name = some store := by
      have hlimits := hshape'.limits name
      rw [hfound, Option.map_some] at hlimits
      obtain ⟨store, hstore, -⟩ := Option.map_eq_some_iff.mp hlimits.symm
      exact ⟨store, hstore⟩
    have hrebase := InvocationState.perform_rebase hshape' hstore hfound invocation.state operation
      (by
        rw [hperform]
        intro active hactive
        obtain ⟨-, own, hown, -, hstored⟩ := hat active hactive
        rw [hstore, Option.some.injEq] at hown
        rw [hcontents, hown, hstored])
      (by
        rw [hperform]
        intro active hactive
        obtain ⟨hname, own, hown, hrevision, -⟩ := hat active hactive
        rw [hstore, Option.some.injEq] at hown
        rw [hown]
        exact ⟨hname, hrevision⟩)
    rw [hperform] at hrebase
    constructor
    · rw [List.map_append, List.map_singleton, traceAlone_concat, htrace, hrun, hrebase]
    · rw [List.map_append, List.map_singleton, runAlone_concat, hrun, hrebase]

/-! ## Every run -/

/-- What holds of every world that is reached: running invocations are sound, writers are
isolated, and the contents of each store are those of its writers run one after
another. -/
structure World.Invariant (start : DurableState) (world : World) : Prop where
  shape : start.SameShape world.durable
  sound : ∀ id, (world.invocations id).result = none →
    (world.invocations id).Sound start world.durable
  isolated : ∀ writer ∈ world.commits, writer.active.writes = true → writer.Isolated
  serial : ∀ name store, start.stores.find name = some store →
    ∃ last, world.durable.stores.find name = some last ∧
      Serial start name store.contents (writersOf name world.commits) last.contents

theorem World.Invariant.open (start : DurableState) : World.Invariant start (World.open start) where
  shape := .refl start
  sound := fun _ _ => .new start start
  isolated := by
    intro writer hwriter
    cases hwriter
  serial := fun name store hstore => ⟨store, hstore, .done _⟩

theorem World.Invariant.operate {start : DurableState} {world : World}
    (hinvariant : World.Invariant start world) (id : ℕ) (operation : Operation) :
    World.Invariant start (world.step (.operate id operation)) := by
  rw [World.step]
  cases hresult : (world.invocations id).result with
  | some result => exact hinvariant
  | none =>
    refine ⟨hinvariant.shape, ?_, hinvariant.isolated, hinvariant.serial⟩
    intro other hrunning
    by_cases hsame : other = id
    · subst hsame
      have hperform : InvocationState.perform world.durable (world.invocations other).state
          operation = (_, _) := Prod.mk.eta.symm
      have hsound := (hinvariant.sound other hresult).perform hinvariant.shape hperform
      simp only [Function.update_self]
      simp only [hresult] at hsound
      exact hsound
    · simp only [Function.update_of_ne hsame] at hrunning ⊢
      exact hinvariant.sound other hrunning

theorem World.Invariant.transact {start : DurableState} {world : World}
    (hinvariant : World.Invariant start world) (name : String)
    (call : { call : Call // call.area ≠ .outcome }) :
    World.Invariant start (world.step (.transact name call)) := by
  rw [World.step]
  cases hfind : world.durable.stores.find name with
  | none => exact hinvariant
  | some store =>
    obtain ⟨hlimits, hrevision, hcontents⟩ := Store.step_contents store call.2
    have hfollows : world.durable.Follows (world.durable.setStore name (store.step call.1).2) :=
      .setStore hfind ⟨hlimits, hrevision.ge, fun _ => hcontents⟩
    refine ⟨hinvariant.shape.trans hfollows.shape, ?_, hinvariant.isolated, ?_⟩
    · intro id hrunning
      exact (hinvariant.sound id hrunning).follows hfollows
    · intro other first hfirst
      obtain ⟨last, hlast, hserial⟩ := hinvariant.serial other first hfirst
      simp only [DurableState.find_setStore]
      by_cases hsame : other = name
      · rw [hsame, hfind, Option.some.injEq] at hlast
        rw [if_pos hsame, hsame, hfind, Option.map_some]
        refine ⟨_, rfl, ?_⟩
        rw [hcontents, hlast, ← hsame]
        exact hserial
      · rw [if_neg hsame]
        exact ⟨last, hlast, hserial⟩

/-- The log entry of a commit. -/
def Invocation.committed (invocation : Invocation) (durable : DurableState) : Option Committed :=
  invocation.state.active.map fun active => { trace := invocation.trace, active, before := durable }

/-- A writer that commits has run alone on the contents just before. -/
theorem World.Invariant.writer {start : DurableState} {world : World}
    (hinvariant : World.Invariant start world) {id : ℕ}
    (hrunning : (world.invocations id).result = none) {completion : Option Completion}
    {nowMillis : ℤ} {durable : DurableState}
    (hcommit : ((world.invocations id).state.commitOutcome world.durable completion nowMillis).1 =
      .ok durable) {writer : Committed}
    (hwriter : (world.invocations id).committed world.durable = some writer)
    (hwrites : writer.active.writes = true) :
    writer.Isolated ∧ ∃ store later, world.durable.stores.find writer.active.name = some store ∧
      durable.stores.find writer.active.name = some later ∧
      writer.Turns start writer.active.name store.contents later.contents := by
  unfold Invocation.committed at hwriter
  rw [Option.map_eq_some_iff] at hwriter
  obtain ⟨active, hactive, hcommitted⟩ := hwriter
  subst hcommitted
  obtain ⟨store, later, hstore, hrevision, hlater, hcontents⟩ :=
    InvocationState.commitOutcome_writes hcommit hactive hwrites
  have halone : RunsAlone start active.name store.contents (world.invocations id).trace
      (world.invocations id).state := by
    refine (hinvariant.sound id hrunning).alone active.name store.contents ?_
    intro found hfound
    rw [hactive, Option.some.injEq] at hfound
    subst hfound
    exact ⟨rfl, store, hstore, hrevision, rfl⟩
  constructor
  · obtain ⟨htrace, hrun⟩ := halone world.durable store hinvariant.shape hstore rfl
    have hat : (world.invocations id).state.At active.name store.revision := by
      intro found hfound
      rw [hactive, Option.some.injEq] at hfound
      subst hfound
      exact ⟨rfl, hrevision⟩
    rw [InvocationState.rebase_self hat] at hrun
    exact Committed.isolated hstore hrevision htrace hrun hactive
  · refine ⟨store, later, hstore, hlater, ?_⟩
    intro other found hother hfound hsame
    obtain ⟨htrace, hrun⟩ := halone other found hother hfound hsame
    refine ⟨htrace, ?_⟩
    have hview : (world.invocations id).state.view store.contents = active.view store.contents := by
      unfold InvocationState.view
      rw [hactive]
    simp only [hrun, InvocationState.view_rebase, hview, hcontents]

theorem writersOf_append (name : String) (commits more : List Committed) :
    writersOf name (commits ++ more) = writersOf name commits ++ writersOf name more :=
  List.filter_append _ _

theorem World.Invariant.commit {start : DurableState} {world : World}
    (hinvariant : World.Invariant start world) (id : ℕ) (completion : Option Completion)
    (nowMillis : ℤ) : World.Invariant start (world.step (.commit id completion nowMillis)) := by
  rw [World.step]
  cases hresult : (world.invocations id).result with
  | some result => exact hinvariant
  | none =>
    have hothers : ∀ (ended : Invocation) other, ended.result ≠ none →
        (Function.update world.invocations id ended other).result = none →
        Function.update world.invocations id ended other = world.invocations other := by
      intro ended other hended hrunning
      by_cases hsame : other = id
      · rw [hsame, Function.update_self] at hrunning
        exact absurd hrunning hended
      · rw [Function.update_of_ne hsame]
    simp only []
    cases hcommit : ((world.invocations id).state.commitOutcome world.durable completion
        nowMillis).1 with
    | error error =>
      refine ⟨hinvariant.shape, ?_, hinvariant.isolated, hinvariant.serial⟩
      intro other hrunning
      have hkept := hothers _ other (by simp) hrunning
      simp only [hkept] at hrunning ⊢
      exact hinvariant.sound other hrunning
    | ok durable =>
      have hfollows := InvocationState.commitOutcome_follows hcommit
      refine ⟨hinvariant.shape.trans hfollows.shape, ?_, ?_, ?_⟩
      · intro other hrunning
        have hkept := hothers _ other (by simp) hrunning
        simp only [hkept] at hrunning ⊢
        exact (hinvariant.sound other hrunning).follows hfollows
      · intro writer hmem hwrites
        rcases List.mem_append.mp hmem with hold | hnew
        · exact hinvariant.isolated writer hold hwrites
        · exact (hinvariant.writer hresult hcommit (Option.mem_toList.mp hnew) hwrites).1
      · intro name store hstore
        obtain ⟨last, hlast, hserial⟩ := hinvariant.serial name store hstore
        simp only [writersOf_append]
        cases hwriter : (world.invocations id).committed world.durable with
        | none =>
          -- nothing was active, so nothing was written
          have hinactive : (world.invocations id).state.active = none :=
            Option.map_eq_none_iff.mp hwriter
          obtain ⟨later, hlater, hcontents⟩ := InvocationState.commitOutcome_contents hcommit hlast
            (by
              intro active hactive
              rw [hinactive] at hactive
              cases hactive)
          refine ⟨later, hlater, ?_⟩
          have hlog : ((world.invocations id).state.active.map fun active =>
              ({ trace := (world.invocations id).trace, active, before := world.durable } :
                Committed)).toList = [] := by
            rw [hinactive]
            rfl
          rw [hlog, hcontents]
          simpa [writersOf] using hserial
        | some writer =>
          have hlog : ((world.invocations id).state.active.map fun active =>
              ({ trace := (world.invocations id).trace, active, before := world.durable } :
                Committed)).toList = [writer] := by
            unfold Invocation.committed at hwriter
            rw [hwriter]
            rfl
          have hactive : (world.invocations id).state.active = some writer.active := by
            unfold Invocation.committed at hwriter
            obtain ⟨active, hactive, hcommitted⟩ := Option.map_eq_some_iff.mp hwriter
            rw [hactive, ← hcommitted]
          rw [hlog]
          by_cases hown : writer.active.name = name ∧ writer.active.writes = true
          · obtain ⟨hname, hwrites⟩ := hown
            obtain ⟨-, before, later, hbefore, hlater, hturns⟩ :=
              hinvariant.writer hresult hcommit hwriter hwrites
            rw [hname] at hbefore hlater hturns
            rw [hlast, Option.some.injEq] at hbefore
            subst hbefore
            have hone : writersOf name [writer] = [writer] := by
              unfold writersOf
              simp [hname, hwrites]
            rw [hone]
            exact ⟨later, hlater, .next writer hserial hturns⟩
          · obtain ⟨later, hlater, hcontents⟩ :=
              InvocationState.commitOutcome_contents hcommit hlast (by
                intro active hsome hname
                rw [hactive, Option.some.injEq] at hsome
                subst hsome
                rw [← Bool.not_eq_true]
                intro hwrites
                exact hown ⟨hname, hwrites⟩)
            have hnone : writersOf name [writer] = [] := by
              unfold writersOf
              simpa using hown
            rw [hnone, List.append_nil]
            refine ⟨later, hlater, ?_⟩
            rw [hcontents]
            exact hserial

theorem World.invariant (start : DurableState) (actions : List Action) :
    World.Invariant start ((World.open start).run actions) := by
  unfold World.run
  induction actions using List.reverseRecOn with
  | nil => exact .open start
  | append_singleton actions action ih =>
    rw [List.foldl_append, List.foldl_cons, List.foldl_nil]
    cases action with
    | operate id operation => exact ih.operate id operation
    | commit id completion nowMillis => exact ih.commit id completion nowMillis
    | transact name call => exact ih.transact name call

/-- Invocations are serializable, over every interleaving of any number of them with other
transactions, from any stores: a writer whose commit succeeds is isolated, the contents
of each store are those of its writers run one after another in the order of their
commits, and a commit that fails changes nothing. -/
theorem invocations_serializable (start : DurableState) (actions : List Action) :
    (∀ writer ∈ ((World.open start).run actions).commits, writer.active.writes = true →
      writer.Isolated) ∧
    (∀ name store, start.stores.find name = some store →
      ∃ last, ((World.open start).run actions).durable.stores.find name = some last ∧
        Serial start name store.contents
          (writersOf name ((World.open start).run actions).commits) last.contents) ∧
    ∀ id completion nowMillis error,
      ((((World.open start).run actions).step (.commit id completion nowMillis)).invocations
        id).result = some (.error error) →
      ((World.open start).run (actions ++ [.commit id completion nowMillis])).durable =
        ((World.open start).run actions).durable := by
  have hinvariant := World.invariant start actions
  refine ⟨hinvariant.isolated, hinvariant.serial, ?_⟩
  intro id completion nowMillis error hfailed
  unfold World.run at hfailed ⊢
  rw [List.foldl_append, List.foldl_cons, List.foldl_nil]
  generalize List.foldl World.step (World.open start) actions = world at hfailed ⊢
  rw [World.step] at hfailed ⊢
  cases hresult : (world.invocations id).result with
  | some result => rfl
  | none =>
    rw [hresult] at hfailed
    simp only [] at hfailed ⊢
    cases hcommit : ((world.invocations id).state.commitOutcome world.durable completion
        nowMillis).1 with
    | error failure => rfl
    | ok durable =>
      simp only [hcommit, Function.update_self, Except.map, Option.some.injEq, reduceCtorEq]
        at hfailed

def sampleDurable : DurableState :=
  { stores := Table.empty.insert "main" (Store.open sampleLimits), queues := ∅, buckets := ∅ }

/-- Two invocations read and write one key; the first commit wins. -/
def sampleActions : List Action :=
  [.operate 0 (.get "main" "count"),
    .operate 1 (.get "main" "count"),
    .operate 0 (.put "main" "count" "1"),
    .operate 1 (.put "main" "count" "2"),
    .commit 0 none 0,
    .commit 1 none 0]

theorem invocations_serializable_sample :
    ((World.open sampleDurable).run sampleActions).commits.length = 1 ∧
    (((World.open sampleDurable).run sampleActions).durable.stores.find "main").map
        (fun store => store.kv.find "count") = some (some [49]) ∧
    ∀ writer ∈ ((World.open sampleDurable).run sampleActions).commits,
      writer.active.writes = true → writer.Isolated :=
  ⟨by decide +kernel, by decide +kernel, (invocations_serializable sampleDurable sampleActions).1⟩

end Krit.Durable
