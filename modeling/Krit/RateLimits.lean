import Krit.IdempotencyCache
import Krit.Lib.Windows

/-!
# Rate limits of a host

A host charges every attempt against a resource.  It tracks a bounded number of resources
and evicts the least recently used one for a new one.  While no more resources are used
than it tracks, nothing is evicted, and each resource has a machine of its own that counts
in windows which restart lazily.

Calls take the lock of the state, so they are serialized; a poisoned lock is not modelled.
Instants are nanoseconds.
-/

namespace Krit.Policy

open Std TreeTotal Machine

inductive RateResource where
  | ai (name : String)
  | http (origin : String)
  deriving DecidableEq, Repr

namespace RateResource

/-- The place of a resource in the order of the source: by constructor, then by text. -/
def rank : RateResource → ℕ × String
  | ai name => (0, name)
  | http origin => (1, origin)

theorem rank_injective : Function.Injective rank := by
  intro left right heq
  cases left <;> cases right <;> simp [rank] at heq <;> rw [heq]

instance : Ord RateResource := ⟨fun left right => (lexOrd.compare (rank left) (rank right))⟩

instance : TransOrd RateResource where
  eq_swap := by
    intro left right
    exact @OrientedCmp.eq_swap _ lexOrd.compare _ (rank left) (rank right)
  isLE_trans := by
    intro first second third hfirst hsecond
    exact @TransCmp.isLE_trans _ lexOrd.compare _ (rank first) (rank second) (rank third)
      hfirst hsecond

instance : LawfulEqOrd RateResource where
  compare_self {resource} := @ReflCmp.compare_self _ lexOrd.compare _ (rank resource)
  eq_of_compare := by
    intro left right heq
    exact rank_injective
      (@LawfulEqCmp.eq_of_compare _ lexOrd.compare _ (rank left) (rank right) heq)

end RateResource

structure RateLimitPolicy where
  capacity : ℕ
  window : Durable.Duration
  deriving DecidableEq, Repr

structure RateEntry where
  windowStarted : ℕ
  count : ℕ
  lastUsed : ℕ

structure RateState where
  entries : TreeMap RateResource RateEntry
  sequence : ℕ

/-- One charge with the two instants it reads: when it opens a window and when it counts. -/
structure RateCall where
  resource : RateResource
  policy : RateLimitPolicy
  label : String
  opened : ℕ
  now : ℕ

structure RateReply where
  outcome : Except String Unit
  restarted : Bool
  deriving DecidableEq

namespace RateEntry

/-- Counts an attempt in the window of an entry, which restarts when it is over. -/
def charge (entry : RateEntry) (policy : RateLimitPolicy) (now sequence : ℕ) :
    Bool × RateEntry :=
  let entry :=
    if policy.window.nanos ≤ now - entry.windowStarted then
      { entry with windowStarted := now, count := 0 }
    else entry
  let entry := { entry with lastUsed := sequence }
  if policy.capacity ≤ entry.count then (false, entry)
  else (true, { entry with count := entry.count + 1 })

def toWindow (entry : RateEntry) : Window := ⟨entry.windowStarted, entry.count⟩

end RateEntry

namespace RateState

def empty : RateState := { entries := ∅, sequence := 0 }

/-- The entry of a resource, made when there is none, in the place of the least recently
used one when all places are taken. -/
def track (maxTrackedResources : ℕ) (entries : TreeMap RateResource RateEntry)
    (resource : RateResource) (opened sequence : ℕ) :
    Option (TreeMap RateResource RateEntry × RateEntry) :=
  match entries[resource]? with
  | some entry => some (entries, entry)
  | none =>
      let entry := { windowStarted := opened, count := 0, lastUsed := sequence }
      if maxTrackedResources ≤ entries.size then
        match entries.toList.argmin fun entry => entry.2.lastUsed with
        | none => none
        | some evicted => some ((entries.erase evicted.1).insert resource entry, entry)
      else some (entries.insert resource entry, entry)

def checkRate (maxTrackedResources : ℕ) (state : RateState) (call : RateCall) :
    Except String Unit × RateState :=
  let sequence := saturatingAdd state.sequence 1
  match track maxTrackedResources state.entries call.resource call.opened sequence with
  | none =>
      (.error "rate policy resource tracking is disabled", { state with sequence := sequence })
  | some (entries, entry) =>
      let charged := entry.charge call.policy call.now sequence
      (if charged.1 then .ok () else .error ("rate limit exceeded for `" ++ call.label ++ "`"),
        { entries := entries.insert call.resource charged.2, sequence := sequence })

/-- The window of a resource starts with this call. -/
def restartsWindow (state : RateState) (call : RateCall) : Bool :=
  state.entries[call.resource]?.all fun entry =>
    call.policy.window.nanos ≤ call.now - entry.windowStarted

def step (maxTrackedResources : ℕ) (state : RateState) (call : RateCall) :
    RateReply × RateState :=
  let checked := state.checkRate maxTrackedResources call
  ({ outcome := checked.1, restarted := state.restartsWindow call }, checked.2)

end RateState

/-! ## The machine of one resource -/

namespace RateCall

def reading (call : RateCall) : Window.Reading := ⟨call.opened, call.now⟩

/-- What a call answers when its resource has a window of its own. -/
def reply (call : RateCall) (outcome : Window.Outcome) : RateReply :=
  { outcome :=
      if outcome.accepted then .ok ()
      else .error ("rate limit exceeded for `" ++ call.label ++ "`")
    restarted := outcome.restarted }

end RateCall

namespace RateReply

def accepted (reply : RateReply) : Bool := reply.outcome.toBool

def toOutcome (reply : RateReply) : Window.Outcome := ⟨reply.accepted, reply.restarted⟩

@[simp] theorem toOutcome_reply (call : RateCall) (outcome : Window.Outcome) :
    (call.reply outcome).toOutcome = outcome := by
  obtain ⟨accepted, restarted⟩ := outcome
  cases accepted
  · rfl
  · rfl

end RateReply

def windowStep (policy : RateLimitPolicy) (window : Option Window) (call : RateCall) :
    RateReply × Option Window :=
  let counted := Window.step policy.capacity policy.window.nanos window call.reading
  (call.reply counted.1, counted.2)

theorem charge_eq_step (entry : RateEntry) (policy : RateLimitPolicy) (now opened sequence : ℕ) :
    Window.step policy.capacity policy.window.nanos (some entry.toWindow) ⟨opened, now⟩ =
      (⟨(entry.charge policy now sequence).1,
          decide (policy.window.nanos ≤ now - entry.windowStarted)⟩,
        some (entry.charge policy now sequence).2.toWindow) := by
  unfold Window.step Window.current Window.refreshed Window.restarts Window.expired
    RateEntry.charge RateEntry.toWindow
  rw [Option.getD_some, Option.all_some]
  by_cases hover : policy.window.nanos ≤ now - entry.windowStarted
  · simp only [hover, decide_true, if_true]
    by_cases hroom : policy.capacity ≤ 0
    · simp only [hroom, if_true, Nat.not_lt.mpr hroom, decide_false, if_false]
    · simp only [hroom, if_false, Nat.lt_of_not_le hroom, decide_true, if_true]
  · simp only [hover, decide_false, Bool.false_eq_true, if_false]
    by_cases hroom : policy.capacity ≤ entry.count
    · simp only [hroom, if_true, Nat.not_lt.mpr hroom, decide_false, if_false]
    · simp only [hroom, if_false, Nat.lt_of_not_le hroom, decide_true, if_true]

namespace RateState

section Independence

variable {maxTrackedResources : ℕ} {state : RateState} {call : RateCall}

/-- The window of a resource, when it is tracked. -/
def window (state : RateState) (resource : RateResource) : Option Window :=
  state.entries[resource]?.map RateEntry.toWindow

/-- A call that evicts nothing takes a step of the machine of its resource. -/
theorem step_of_room (hroom : state.entries[call.resource]? = none →
      state.entries.size < maxTrackedResources) :
    (state.step maxTrackedResources call).1 =
        (windowStep call.policy (state.window call.resource) call).1 ∧
      (state.step maxTrackedResources call).2.window call.resource =
        (windowStep call.policy (state.window call.resource) call).2 ∧
      ∀ other ≠ call.resource,
        (state.step maxTrackedResources call).2.entries[other]? = state.entries[other]? := by
  unfold step checkRate track windowStep window restartsWindow RateCall.reading
  cases hentry : state.entries[call.resource]? with
  | some entry =>
    rw [Option.map_some, charge_eq_step entry call.policy call.now call.opened
      (saturatingAdd state.sequence 1)]
    refine ⟨rfl, ?_, ?_⟩
    · simp only [getElem?_insert_self, Option.map_some]
    · intro other hother
      exact getElem?_insert_of_ne _ hother.symm _
  | none =>
    have hplace := Nat.not_le.mpr (hroom hentry)
    simp only [if_neg hplace, Option.map_none]
    have hopened : Window.step call.policy.capacity call.policy.window.nanos none
        ⟨call.opened, call.now⟩ =
        (⟨(RateEntry.charge ⟨call.opened, 0, saturatingAdd state.sequence 1⟩ call.policy call.now
            (saturatingAdd state.sequence 1)).1, true⟩,
          some (RateEntry.charge ⟨call.opened, 0, saturatingAdd state.sequence 1⟩ call.policy
            call.now (saturatingAdd state.sequence 1)).2.toWindow) := by
      have hcharge := charge_eq_step ⟨call.opened, 0, saturatingAdd state.sequence 1⟩ call.policy
        call.now call.opened (saturatingAdd state.sequence 1)
      rw [Prod.mk.injEq, Window.Outcome.mk.injEq] at hcharge
      exact Prod.ext (Window.Outcome.ext hcharge.1.1 rfl) hcharge.2
    rw [hopened]
    refine ⟨rfl, ?_, ?_⟩
    · simp only [getElem?_insert_self, Option.map_some]
    · intro other hother
      rw [getElem?_insert_of_ne _ hother.symm, getElem?_insert_of_ne _ hother.symm]

/-- All tracked resources are among some resources. -/
def Tracks (resources : Finset RateResource) (state : RateState) : Prop :=
  ∀ resource entry, state.entries[resource]? = some entry → resource ∈ resources

theorem Tracks.room {resources : Finset RateResource} (htracks : Tracks resources state)
    (hcard : resources.card ≤ maxTrackedResources) {resource : RateResource}
    (hmem : resource ∈ resources) (hnone : state.entries[resource]? = none) :
    state.entries.size < maxTrackedResources := by
  have hsub : (state.entries.toList.map Prod.fst).toFinset ⊂ resources := by
    rw [Finset.ssubset_iff_of_subset]
    · refine ⟨resource, hmem, ?_⟩
      intro hkey
      rw [List.mem_toFinset, List.mem_map] at hkey
      obtain ⟨⟨key, entry⟩, hentry, rfl⟩ := hkey
      rw [TreeMap.mem_toList_iff_getElem?_eq_some, hnone] at hentry
      cases hentry
    · intro other hkey
      rw [List.mem_toFinset, List.mem_map] at hkey
      obtain ⟨⟨key, entry⟩, hentry, rfl⟩ := hkey
      rw [TreeMap.mem_toList_iff_getElem?_eq_some] at hentry
      exact htracks key entry hentry
  have hnodup : (state.entries.toList.map Prod.fst).Nodup := by
    rw [TreeMap.map_fst_toList_eq_keys]
    exact TreeMap.nodup_keys
  have hlt := Finset.card_lt_card hsub
  rw [List.toFinset_card_of_nodup hnodup, List.length_map, TreeMap.length_toList] at hlt
  omega

theorem Tracks.step {resources : Finset RateResource} (htracks : Tracks resources state)
    (hcard : resources.card ≤ maxTrackedResources) (hmem : call.resource ∈ resources) :
    Tracks resources (state.step maxTrackedResources call).2 := by
  obtain ⟨-, -, hothers⟩ := step_of_room (htracks.room hcard hmem)
  intro other entry hentry
  by_cases hother : other = call.resource
  · rw [hother]
    exact hmem
  · rw [hothers other hother] at hentry
    exact htracks other entry hentry

/-- The calls of one resource are answered by its own machine. -/
theorem history_filter {resources : Finset RateResource} {policies : RateResource → RateLimitPolicy}
    (hcard : resources.card ≤ maxTrackedResources) {calls : List RateCall}
    (hcalls : ∀ call ∈ calls, call.resource ∈ resources ∧ call.policy = policies call.resource)
    (htracks : Tracks resources state) (resource : RateResource) :
    (History.history (step maxTrackedResources) state calls).filter
        (fun event => event.1.resource = resource) =
      History.history (windowStep (policies resource)) (state.window resource)
        (calls.filter fun call => call.resource = resource) := by
  induction calls generalizing state with
  | nil => rfl
  | cons call rest ih =>
    obtain ⟨hmem, hpolicy⟩ := hcalls call List.mem_cons_self
    obtain ⟨hreply, hown, hothers⟩ := step_of_room (htracks.room hcard hmem)
    have hrest := ih (fun other hother => hcalls other (List.mem_cons_of_mem _ hother))
      (htracks.step hcard hmem)
    rw [History.history, List.filter_cons, List.filter_cons, hrest]
    by_cases hsame : call.resource = resource
    · subst hsame
      simp only [decide_true, if_true]
      rw [History.history, hreply, hown, hpolicy]
    · simp only [hsame, decide_false, Bool.false_eq_true, if_false]
      have hwindow : (state.step maxTrackedResources call).2.window resource =
          state.window resource := by
        unfold window
        rw [hothers resource (Ne.symm hsame)]
      rw [hwindow]

theorem tracks_empty (resources : Finset RateResource) : Tracks resources empty := by
  intro resource entry hentry
  rw [empty, TreeMap.getElem?_emptyc] at hentry
  cases hentry

end Independence

end RateState

/-- The machine of one resource counts in windows. -/
theorem history_windowStep (policy : RateLimitPolicy) (window : Option Window)
    (calls : List RateCall) :
    (History.history (windowStep policy) window calls).map
        (fun event => (event.1.reading, event.2.toOutcome)) =
      History.history (Window.step policy.capacity policy.window.nanos) window
        (calls.map RateCall.reading) := by
  induction calls generalizing window with
  | nil => rfl
  | cons call rest ih =>
    rw [History.history, List.map_cons, List.map_cons, History.history, ih]
    unfold windowStep
    rw [RateReply.toOutcome_reply]

/-! ## Whole runs -/

/-- The instants of the calls do not decrease. -/
def RateCall.Ordered (calls : List RateCall) : Prop :=
  (∀ call ∈ calls, call.opened ≤ call.now) ∧
    calls.Pairwise fun earlier later => earlier.now ≤ later.opened

theorem RateCall.Ordered.reading {calls : List RateCall} (hordered : RateCall.Ordered calls)
    (chosen : RateCall → Bool) : Window.Ordered ((calls.filter chosen).map RateCall.reading) := by
  refine ⟨?_, ?_⟩
  · intro reading hreading
    obtain ⟨call, hcall, rfl⟩ := List.mem_map.mp hreading
    exact hordered.1 call (List.mem_of_mem_filter hcall)
  · rw [List.pairwise_map]
    exact hordered.2.filter chosen

section Runs

variable {maxTrackedResources : ℕ} {policies : RateResource → RateLimitPolicy}
  {calls : List RateCall}

/-- The calls of a resource with their replies. -/
def eventsOf (maxTrackedResources : ℕ) (calls : List RateCall) (resource : RateResource) :
    List (RateCall × RateReply) :=
  (History.history (RateState.step maxTrackedResources) RateState.empty calls).filter
    fun event => event.1.resource = resource

theorem eventsOf_eq (hcard : (calls.map RateCall.resource).toFinset.card ≤ maxTrackedResources)
    (hpolicies : ∀ call ∈ calls, call.policy = policies call.resource) (resource : RateResource) :
    eventsOf maxTrackedResources calls resource =
      History.history (windowStep (policies resource)) none
        (calls.filter fun call => call.resource = resource) := by
  refine RateState.history_filter hcard ?_ (RateState.tracks_empty _) resource
  intro call hcall
  rw [List.mem_toFinset]
  exact ⟨List.mem_map_of_mem hcall, hpolicies call hcall⟩

/-- While the resources in use are tracked, every resource is limited on its own: from one
restart of its window to the next it admits its capacity, any interval as long as a window
admits twice that, and calls for other resources change nothing. -/
theorem rates_limited_per_resource (hordered : RateCall.Ordered calls)
    (hcard : (calls.map RateCall.resource).toFinset.card ≤ maxTrackedResources)
    (hpolicies : ∀ call ∈ calls, call.policy = policies call.resource) (resource : RateResource) :
    (∀ before segment after,
      eventsOf maxTrackedResources calls resource = before ++ segment ++ after →
      (∀ event ∈ segment.drop 1, event.2.restarted = false) →
      segment.countP (fun event => event.2.accepted) ≤ (policies resource).capacity) ∧
    (∀ start, (eventsOf maxTrackedResources calls resource).countP (fun event =>
        event.2.accepted && start ≤ event.1.now &&
          event.1.now < start + (policies resource).window.nanos) ≤
      2 * (policies resource).capacity) ∧
    eventsOf maxTrackedResources calls resource =
      History.history (RateState.step maxTrackedResources) RateState.empty
        (calls.filter fun call => call.resource = resource) := by
  have hevents := eventsOf_eq hcard hpolicies resource
  have hwindows := history_windowStep (policies resource) none
    (calls.filter fun call => call.resource = resource)
  rw [← hevents] at hwindows
  refine ⟨?_, ?_, ?_⟩
  · intro before segment after hsplit hsame
    rw [hsplit, List.map_append, List.map_append] at hwindows
    have hle := Window.admitted_between_restarts hwindows.symm (by
      intro event hevent
      rw [← List.map_drop] at hevent
      obtain ⟨own, hown, rfl⟩ := List.mem_map.mp hevent
      exact hsame own hown)
    rw [Window.admitted, List.countP_map] at hle
    exact hle
  · intro start
    have hle :=
      Window.admittedIn_le (policies resource).capacity (policies resource).window.nanos start
      (hordered.reading fun call => call.resource = resource)
    rw [← hwindows, Window.admittedIn, List.countP_map] at hle
    exact hle
  · have hall : ∀ event ∈ History.history (RateState.step maxTrackedResources) RateState.empty
        (calls.filter fun call => call.resource = resource),
        decide (event.1.resource = resource) = true := by
      intro event hevent
      have hmem := History.fst_mem_of_mem_history _ hevent
      exact (List.mem_filter.mp hmem).2
    have hown : eventsOf maxTrackedResources
        (calls.filter fun call => call.resource = resource) resource =
        History.history (windowStep (policies resource)) none
          (calls.filter fun call => call.resource = resource) := by
      rw [@eventsOf_eq _ policies _ ?_ ?_ resource, List.filter_filter]
      · simp only [Bool.and_self]
      · refine (Finset.card_le_card ?_).trans hcard
        intro other hother
        rw [List.mem_toFinset] at hother ⊢
        obtain ⟨call, hcall, hresource⟩ := List.mem_map.mp hother
        rw [← hresource]
        exact List.mem_map_of_mem (List.mem_of_mem_filter hcall)
      · intro call hcall
        exact hpolicies call (List.mem_of_mem_filter hcall)
    rw [hevents, ← hown, eventsOf, List.filter_eq_self.mpr hall]

end Runs

def sampleRate : RateLimitPolicy := { capacity := 1, window := .fromSecs 1 }

def sampleRateCalls : List RateCall :=
  [⟨.ai "model", sampleRate, "model", 0, 0⟩,
    ⟨.http "https://example.com", sampleRate, "search", 5, 5⟩,
    ⟨.ai "model", sampleRate, "model", 10, 10⟩,
    ⟨.ai "model", sampleRate, "model", 1000000000, 1000000000⟩]

theorem rates_limited_per_resource_sample :
    (eventsOf 2 sampleRateCalls (.ai "model")).countP (fun event =>
        event.2.accepted && 0 ≤ event.1.now && event.1.now < 0 + sampleRate.window.nanos) ≤
      2 * sampleRate.capacity :=
  (@rates_limited_per_resource 2 (fun _ => sampleRate) sampleRateCalls ⟨by decide, by decide⟩
    (by decide) (by decide) (.ai "model")).2.1 0

end Krit.Policy
