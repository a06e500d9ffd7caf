import Krit.RateLimits

/-!
# Retried requests

A host sends one request of a guest up to a configured number of times.  Before every
attempt it looks at the cancellation, the deadline, the approval and the rate of the
request, and between two attempts it backs off for a while.

The host's surroundings answer as they like: who cancels, what is approved and charged,
what an attempt returns and how much time passes are the steps of some world.  Readings of
the clock do not decrease, and a sleep lasts at least as long as asked.  A trace records
the answers in their order.  Instants are nanoseconds; the clock does not overflow.
-/

namespace Krit.Policy

open Machine Durable

/-! ## Policies -/

def maxRetryAttempts : ℕ := 4

def maxRetryDelay : Duration := .fromSecs 2

structure RetryPolicy where
  maxAttempts : Fin 256
  baseDelay : Duration
  maxDelay : Duration
  deriving DecidableEq

namespace RetryPolicy

def validate (policy : RetryPolicy) : Except RuntimeError Unit :=
  if policy.maxAttempts.val < 1 ∨ maxRetryAttempts < policy.maxAttempts.val ∨
      policy.maxDelay.nanos < policy.baseDelay.nanos ∨
      maxRetryDelay.nanos < policy.maxDelay.nanos then
    .error (.setup ("retry policy must use 1..=" ++ toString maxRetryAttempts ++
      " attempts and delays no greater than " ++ toString maxRetryDelay.asMillis ++ " ms"))
  else .ok ()

/-- Powers of two, up to the largest number of 32 bits. -/
def saturatingPow2 (exponent : ℕ) : ℕ := min (2 ^ exponent) (2 ^ 32 - 1)

def delay (policy : RetryPolicy) (completedAttempts : ℕ) : Duration :=
  ⟨min (policy.baseDelay.saturatingMul (saturatingPow2 (completedAttempts - 1))).nanos
    policy.maxDelay.nanos⟩

structure Valid (policy : RetryPolicy) : Prop where
  attempts : 1 ≤ policy.maxAttempts.val ∧ policy.maxAttempts.val ≤ maxRetryAttempts
  base_le : policy.baseDelay.nanos ≤ policy.maxDelay.nanos
  max_le : policy.maxDelay.nanos ≤ maxRetryDelay.nanos

theorem valid_of_validate {policy : RetryPolicy} (hvalidate : policy.validate = .ok ()) :
    policy.Valid := by
  unfold validate at hvalidate
  split at hvalidate
  · cases hvalidate
  · rename_i hbounds
    rw [not_or, not_or, not_or] at hbounds
    exact ⟨⟨by omega, by omega⟩, by omega, by omega⟩

theorem delay_le (policy : RetryPolicy) (completedAttempts : ℕ) :
    (policy.delay completedAttempts).nanos ≤ policy.maxDelay.nanos := Nat.min_le_right _ _

/-- Within the bounds of a valid policy, nothing saturates. -/
theorem Valid.delay_eq {policy : RetryPolicy} (hvalid : policy.Valid) {completedAttempts : ℕ}
    (hattempts : completedAttempts ≤ policy.maxAttempts.val) :
    (policy.delay completedAttempts).nanos =
      min policy.maxDelay.nanos (policy.baseDelay.nanos * 2 ^ (completedAttempts - 1)) := by
  have hexponent : completedAttempts - 1 ≤ 3 := by
    have hle := hvalid.attempts.2
    unfold maxRetryAttempts at hle
    omega
  have hpow : 2 ^ (completedAttempts - 1) ≤ 2 ^ 3 := Nat.pow_le_pow_right (by decide) hexponent
  have hbase : policy.baseDelay.nanos ≤ 2000000000 :=
    hvalid.base_le.trans hvalid.max_le
  have hproduct : policy.baseDelay.nanos * 2 ^ (completedAttempts - 1) ≤ 2000000000 * 2 ^ 3 :=
    Nat.mul_le_mul hbase hpow
  have hroom : 2000000000 * 2 ^ 3 ≤ Duration.maxNanos := by decide
  unfold delay saturatingPow2 Duration.saturatingMul
  simp only []
  rw [Nat.min_eq_left (by omega : 2 ^ (completedAttempts - 1) ≤ 2 ^ 32 - 1),
    Nat.min_eq_left (hproduct.trans hroom), Nat.min_comm]

end RetryPolicy

/-! ## What may be sent again -/

def retryEligible (request : HttpRequest) : Bool :=
  if request.method.toAsciiLowercase.text == "get" ||
      request.method.toAsciiLowercase.text == "head" then true
  else
    match request.headers.filter HttpHeader.isIdempotencyKey with
    | [key] => validIdempotencyKey key.value maxIdempotencyKeyBytes
    | _ => false

def retryableStatus (status : ℤ) : Bool :=
  status == 429 || status == 502 || status == 503 || status == 504

/-- The number that digits spell, when there are digits and it fits in a word. -/
def parseU64 (digits : List Char) : Option ℕ :=
  if digits.isEmpty then none
  else
    let value := digits.foldl (fun value digit => value * 10 + (digit.toNat - '0'.toNat)) 0
    if value < wordCount then some value else none

/-- The seconds of the only header that asks to wait. -/
def retryAfter (headers : List HttpHeader) : Option Duration :=
  match headers.filter fun header => header.name.toAsciiLowercase.text == "retry-after" with
  | [value] =>
      if value.value.text.toList.all Char.isDigit then
        (parseU64 value.value.text.toList).map Duration.fromSecs
      else none
  | _ => none

def retryDelay (policy : RetryPolicy) (completedAttempts : ℕ) (after : Option Duration) :
    Duration :=
  ⟨max ((after.map fun delay => min delay.nanos policy.maxDelay.nanos).getD 0)
    (policy.delay completedAttempts).nanos⟩

theorem delay_le_retryDelay (policy : RetryPolicy) (completedAttempts : ℕ)
    (after : Option Duration) :
    (policy.delay completedAttempts).nanos ≤ (retryDelay policy completedAttempts after).nanos :=
  Nat.le_max_right _ _

theorem retryDelay_le (policy : RetryPolicy) (completedAttempts : ℕ) (after : Option Duration) :
    (retryDelay policy completedAttempts after).nanos ≤ policy.maxDelay.nanos := by
  unfold retryDelay
  refine Nat.max_le.mpr ⟨?_, policy.delay_le completedAttempts⟩
  cases after with
  | none => exact Nat.zero_le _
  | some delay => exact Nat.min_le_right _ _

inductive NetworkFailureKind where
  | cancelled
  | deadline
  | retryable
  | fatal
  deriving DecidableEq, Repr

structure NetworkFailure where
  kind : NetworkFailureKind
  message : String
  deriving DecidableEq, Repr

def NetworkFailure.retryable (failure : NetworkFailure) : Bool := failure.kind == .retryable

/-! ## The surroundings -/

inductive ApprovalOperation where
  | aiInvoke
  | httpBearer
  deriving DecidableEq, Repr

def ApprovalOperation.asStr : ApprovalOperation → String
  | .aiInvoke => "ai.invoke"
  | .httpBearer => "http.bearer"

inductive RetrySafety where
  | fromRequest
  | hostReadOnly
  deriving DecidableEq, Repr

/-- A request to send; where it goes and with which credential is left to the surroundings. -/
structure RetryRequest where
  request : HttpRequest
  rateResource : RateResource
  rateLabel : String
  ratePolicy : RateLimitPolicy
  retryPolicy : RetryPolicy
  approval : Option (ApprovalOperation × String)
  approvalLabel : String
  approvalPrechecked : Bool
  deadline : ℕ
  safety : RetrySafety

def RetryRequest.eligible (retry : RetryRequest) : Bool :=
  match retry.safety with
  | .fromRequest => retryEligible retry.request
  | .hostReadOnly => true

/-- What a world answers, and how it goes on. -/
structure Surroundings (ω : Type) where
  cancelled : ω → Bool × ω
  elapsed : ω → ℕ × ω
  approve : ApprovalOperation → String → ω → Bool × ω
  checkRate : RateResource → RateLimitPolicy → String → ω → Except String Unit × ω
  send : HttpRequest → Duration → ω → Except NetworkFailure HttpResponse × ω

inductive RetryEvent where
  | cancellation (cancelled : Bool)
  | clock (now : ℕ)
  | approval (operation : ApprovalOperation) (resource : String) (granted : Bool)
  | charge (outcome : Except String Unit)
  | send (outcome : Except NetworkFailure HttpResponse)
  | wait (delay : Duration) (checked : ℕ)
  | sleep (now slice : ℕ)

structure Sending (ω : Type) where
  world : ω
  clock : ℕ
  networkAttempts : ℕ
  retries : ℕ
  rateLimitDenials : ℕ
  trace : List RetryEvent

namespace Sending

variable {ω : Type} (host : Surroundings ω)

def isCancelled (state : Sending ω) : Bool × Sending ω :=
  let answer := host.cancelled state.world
  (answer.1,
    { state with world := answer.2, trace := state.trace ++ [.cancellation answer.1] })

/-- Reads the clock; the reading is the clock of the new state. -/
def now (state : Sending ω) : Sending ω :=
  let answer := host.elapsed state.world
  { state with
    world := answer.2
    clock := state.clock + answer.1
    trace := state.trace ++ [.clock (state.clock + answer.1)] }

def approve (operation : ApprovalOperation) (resource : String) (state : Sending ω) :
    Bool × Sending ω :=
  let answer := host.approve operation resource state.world
  (answer.1,
    { state with
      world := answer.2
      trace := state.trace ++ [.approval operation resource answer.1] })

def checkRate (retry : RetryRequest) (state : Sending ω) : Except String Unit × Sending ω :=
  let answer := host.checkRate retry.rateResource retry.ratePolicy retry.rateLabel state.world
  (answer.1, { state with world := answer.2, trace := state.trace ++ [.charge answer.1] })

def send (request : HttpRequest) (remaining : Duration) (state : Sending ω) :
    Except NetworkFailure HttpResponse × Sending ω :=
  let answer := host.send request remaining state.world
  (answer.1, { state with world := answer.2, trace := state.trace ++ [.send answer.1] })

def sleep (slice : ℕ) (state : Sending ω) : Sending ω :=
  { state with
    clock := state.clock + slice
    trace := state.trace ++ [.sleep state.clock slice] }

theorem clock_le_now (state : Sending ω) : state.clock ≤ (state.now host).clock :=
  Nat.le_add_right _ _

/-! ## The loop -/

/-- A wait is slept in slices. -/
def waitSlice : Duration := .fromMillis 10

def waitUntil (deadline limit : ℕ) (state : Sending ω) : Except String Unit × Sending ω :=
  let looked := state.now host
  if looked.clock < limit then
    let asked := looked.isCancelled host
    if asked.1 then (.error "operation cancelled during retry backoff", asked.2)
    else
      let again := asked.2.now host
      if deadline ≤ again.clock then
        (.error "outbound operation deadline expired during retry backoff", again)
      else
        let slice := min (min (limit - again.clock) (deadline - again.clock)) waitSlice.nanos
        if slice = 0 then (.ok (), again) else waitUntil deadline limit (again.sleep slice)
  else (.ok (), looked)
termination_by limit - state.clock
decreasing_by
  -- a slice that is slept brings the limit closer
  rename_i hbefore _ _ hslice
  have hlooked : state.clock ≤ looked.clock := clock_le_now host state
  have hagain : looked.clock ≤ again.clock := clock_le_now host asked.2
  have _hle : slice ≤ limit - again.clock := (Nat.min_le_left _ _).trans (Nat.min_le_left _ _)
  change limit - (again.clock + slice) < limit - state.clock
  omega

def waitForRetry (delay : Duration) (deadline : ℕ) (state : Sending ω) :
    Except String Unit × Sending ω :=
  let checked := state.now host
  if deadline - checked.clock < delay.nanos then
    (.error "retry delay would exceed the outbound operation deadline", checked)
  else
    let planned := { checked with trace := checked.trace ++ [RetryEvent.wait delay checked.clock] }
    let started := planned.now host
    waitUntil host deadline (started.clock + delay.nanos) started

/-- Asks for the approval of an attempt, unless the caller did so for the first one. -/
def askApproval (retry : RetryRequest) (attempt : ℕ) (state : Sending ω) :
    Except String Unit × Sending ω :=
  match retry.approval with
  | none => (.ok (), state)
  | some (operation, resource) =>
      if 1 < attempt || !retry.approvalPrechecked then
        let answer := state.approve host operation resource
        if answer.1 then (.ok (), answer.2)
        else
          (.error ("approval denied for `" ++ operation.asStr ++ "` resource `" ++
            retry.approvalLabel ++ "`"), answer.2)
      else (.ok (), state)

/-- Charges an attempt and counts it. -/
def chargeAttempt (retry : RetryRequest) (attempt : ℕ) (state : Sending ω) :
    Except String Unit × Sending ω :=
  match state.checkRate host retry with
  | (.error message, state) =>
      (.error message, { state with rateLimitDenials := saturatingAdd state.rateLimitDenials 1 })
  | (.ok (), state) =>
      let counted :=
        if 1 < attempt then { state with retries := saturatingAdd state.retries 1 } else state
      match Machine.checkedAdd counted.networkAttempts 1 with
      | none => (.error "outbound HTTP attempt count overflowed", counted)
      | some networkAttempts => (.ok (), { counted with networkAttempts })

/-- The checks before an attempt. -/
def prepare (retry : RetryRequest) (attempt : ℕ) (state : Sending ω) :
    Except String Unit × Sending ω :=
  let asked := state.isCancelled host
  if asked.1 then (.error "operation cancelled by embedding host", asked.2)
  else
    let looked := asked.2.now host
    if retry.deadline ≤ looked.clock then (.error "outbound operation deadline expired", looked)
    else
      match looked.askApproval host retry attempt with
      | (.error message, state) => (.error message, state)
      | (.ok (), state) => state.chargeAttempt host retry attempt

/-- One attempt with the time that is left. -/
def attemptSend (retry : RetryRequest) (state : Sending ω) :
    Except NetworkFailure HttpResponse × Sending ω :=
  let looked := state.now host
  looked.send host retry.request ⟨retry.deadline - looked.clock⟩

/-- The attempts after some number of them. -/
def sendLoop (retry : RetryRequest) (completed : ℕ) (state : Sending ω) :
    Except String HttpResponse × Sending ω :=
  let attempt := min (completed + 1) 255
  match state.prepare host retry attempt with
  | (.error message, state) => (.error message, state)
  | (.ok (), state) =>
      match state.attemptSend host retry with
      | (.ok response, state) =>
          if retry.eligible ∧ retryableStatus response.status ∧
              attempt < retry.retryPolicy.maxAttempts.val then
            let delay := retryDelay retry.retryPolicy attempt (retryAfter response.headers)
            match state.waitForRetry host delay retry.deadline with
            | (.error message, state) => (.error message, state)
            | (.ok (), state) => sendLoop retry attempt state
          else (.ok response, state)
      | (.error failure, state) =>
          if failure.retryable ∧ retry.eligible ∧
              attempt < retry.retryPolicy.maxAttempts.val then
            match state.waitForRetry host (retry.retryPolicy.delay attempt) retry.deadline with
            | (.error message, state) => (.error message, state)
            | (.ok (), state) => sendLoop retry attempt state
          else (.error failure.message, state)
termination_by 255 - completed
decreasing_by
  all_goals
    have _hattempts := retry.retryPolicy.maxAttempts.isLt
    omega

def sendWithRetry (retry : RetryRequest) (state : Sending ω) :
    Except String HttpResponse × Sending ω :=
  sendLoop host retry 0 state

end Sending

/-! ## What a trace keeps to -/

namespace RetryEvent

def isSend : RetryEvent → Bool
  | .send _ => true
  | _ => false

/-- An event between two attempts: no wait is planned that is longer than the longest delay
or than what is left to the deadline, and no sleep goes beyond the deadline. -/
def Quiet (retry : RetryRequest) : RetryEvent → Prop
  | .send _ => False
  | .wait delay checked =>
      delay.nanos ≤ retry.retryPolicy.maxDelay.nanos ∧ delay.nanos ≤ retry.deadline - checked
  | .sleep now slice => now + slice ≤ retry.deadline
  | _ => True

theorem Quiet.isSend_eq_false {retry : RetryRequest} {event : RetryEvent}
    (hquiet : event.Quiet retry) : event.isSend = false := by
  cases event with
  | send outcome => exact hquiet.elim
  | cancellation | clock | approval | charge | wait | sleep => rfl

end RetryEvent

/-- After this outcome an eligible request may be sent again. -/
def Retried : Except NetworkFailure HttpResponse → Prop
  | .ok response => response.status ∈ [429, 502, 503, 504]
  | .error failure => failure.kind = .retryable

/-- The checks that an attempt needs, after the attempt before it. -/
structure Cleared (retry : RetryRequest) (first : Prop) (segment : List RetryEvent) : Prop where
  uncancelled : .cancellation false ∈ segment
  in_time : ∃ now, .clock now ∈ segment ∧ now < retry.deadline
  charged : .charge (.ok ()) ∈ segment
  approved : ∀ operation resource, retry.approval = some (operation, resource) →
    (first ∧ retry.approvalPrechecked = true) ∨ .approval operation resource true ∈ segment

/-- The clock is read at an instant or later. -/
def Passes (limit : ℕ) (segment : List RetryEvent) : Prop :=
  ∃ before finished after, segment = before ++ .clock finished :: after ∧ limit ≤ finished

/-- Two readings of the clock are some time apart. -/
def Waited (nanos : ℕ) (segment : List RetryEvent) : Prop :=
  ∃ before started after, segment = before ++ .clock started :: after ∧
    Passes (started + nanos) after

/-- The attempt after some others, the last of which called for it. -/
structure Again (retry : RetryRequest) (earlier segment : List RetryEvent) : Prop where
  eligible : retry.eligible = true
  called_for : ∃ start outcome, earlier = start ++ [.send outcome] ∧ Retried outcome
  waited : Waited (min retry.retryPolicy.maxDelay.nanos
    (retry.retryPolicy.baseDelay.nanos * 2 ^ (earlier.countP RetryEvent.isSend - 1))) segment

/-- What the protocol allows after some events. -/
def Allowed (retry : RetryRequest) (past : List RetryEvent) : RetryEvent → Prop
  | .send _ =>
      ∃ earlier segment, past = earlier ++ segment ∧
        (∀ event ∈ segment, event.isSend = false) ∧ Cleared retry (earlier = []) segment ∧
        (earlier = [] ∨ Again retry earlier segment)
  | event => event.Quiet retry

theorem RetryEvent.Quiet.allowed {retry : RetryRequest} {event : RetryEvent}
    (hquiet : event.Quiet retry) (past : List RetryEvent) : Allowed retry past event := by
  cases event with
  | send outcome => exact hquiet.elim
  | cancellation | clock | approval | charge | wait | sleep => exact hquiet

theorem Cleared.mono {retry : RetryRequest} {first first' : Prop}
    {segment segment' : List RetryEvent} (hcleared : Cleared retry first segment)
    (hfirst : first → first') (hsegment : segment ⊆ segment') :
    Cleared retry first' segment' where
  uncancelled := hsegment hcleared.uncancelled
  in_time := by
    obtain ⟨now, hnow, hlt⟩ := hcleared.in_time
    exact ⟨now, hsegment hnow, hlt⟩
  charged := hsegment hcleared.charged
  approved := by
    intro operation resource happroval
    rcases hcleared.approved operation resource happroval with ⟨hone, hchecked⟩ | hmem
    · exact Or.inl ⟨hfirst hone, hchecked⟩
    · exact Or.inr (hsegment hmem)

theorem Passes.prepend {limit : ℕ} {segment : List RetryEvent} (hpasses : Passes limit segment)
    (earlier : List RetryEvent) : Passes limit (earlier ++ segment) := by
  obtain ⟨before, finished, after, rfl, hle⟩ := hpasses
  exact ⟨earlier ++ before, finished, after, (List.append_assoc _ _ _).symm, hle⟩

theorem Passes.append {limit : ℕ} {segment : List RetryEvent} (hpasses : Passes limit segment)
    (later : List RetryEvent) : Passes limit (segment ++ later) := by
  obtain ⟨before, finished, after, rfl, hle⟩ := hpasses
  refine ⟨before, finished, after ++ later, ?_, hle⟩
  rw [List.append_assoc, List.cons_append]

theorem Waited.append {nanos : ℕ} {segment : List RetryEvent} (hwaited : Waited nanos segment)
    (later : List RetryEvent) : Waited nanos (segment ++ later) := by
  obtain ⟨before, started, after, rfl, hpasses⟩ := hwaited
  refine ⟨before, started, after ++ later, ?_, hpasses.append later⟩
  rw [List.append_assoc, List.cons_append]

theorem Waited.mono {nanos nanos' : ℕ} {segment : List RetryEvent} (hwaited : Waited nanos segment)
    (hle : nanos' ≤ nanos) : Waited nanos' segment := by
  obtain ⟨before, started, after, rfl, middle, finished, rest, rfl, hfinished⟩ := hwaited
  exact ⟨before, started, _, rfl, middle, finished, rest, rfl, by omega⟩

theorem throughout_append {retry : RetryRequest} {past segment : List RetryEvent}
    (hpast : History.Throughout (Allowed retry) past)
    (hsegment : ∀ event ∈ segment, event.Quiet retry) :
    History.Throughout (Allowed retry) (past ++ segment) := by
  induction segment using List.reverseRecOn with
  | nil =>
    rw [List.append_nil]
    exact hpast
  | append_singleton segment event ih =>
    rw [← List.append_assoc]
    refine (ih fun other hother => hsegment other (List.mem_append_left _ hother)).concat ?_
    exact (hsegment event (by simp)).allowed _

/-! ## What one part of the loop adds to a trace -/

namespace Sending

section Segments

variable {ω : Type} (host : Surroundings ω)

/-- The trace goes on with events that are no attempts. -/
def Continues (retry : RetryRequest) (state later : Sending ω) (segment : List RetryEvent) : Prop :=
  later.trace = state.trace ++ segment ∧ segment ≠ [] ∧ ∀ event ∈ segment, event.Quiet retry

theorem Continues.trans {retry : RetryRequest} {first second third : Sending ω}
    {earlier later : List RetryEvent} (hearlier : Continues retry first second earlier)
    (hlater : Continues retry second third later) :
    Continues retry first third (earlier ++ later) := by
  refine ⟨?_, ?_, ?_⟩
  · rw [hlater.1, hearlier.1, List.append_assoc]
  · intro hnil
    exact hearlier.2.1 (List.append_eq_nil_iff.mp hnil).1
  · intro event hevent
    rcases List.mem_append.mp hevent with hold | hnew
    · exact hearlier.2.2 event hold
    · exact hlater.2.2 event hnew

theorem continues_singleton {retry : RetryRequest} {state later : Sending ω} {event : RetryEvent}
    (htrace : later.trace = state.trace ++ [event]) (hquiet : event.Quiet retry) :
    Continues retry state later [event] := by
  refine ⟨htrace, List.cons_ne_nil _ _, ?_⟩
  intro other hother
  rw [List.mem_singleton.mp hother]
  exact hquiet

variable (retry : RetryRequest)

theorem now_continues (state : Sending ω) :
    Continues retry state (state.now host) [.clock (state.now host).clock] :=
  continues_singleton rfl trivial

theorem isCancelled_continues (state : Sending ω) :
    Continues retry state (state.isCancelled host).2
      [.cancellation (state.isCancelled host).1] :=
  continues_singleton rfl trivial

theorem waitUntil_continues (limit : ℕ) (state : Sending ω) :
    ∃ segment, Continues retry state (waitUntil host retry.deadline limit state).2 segment ∧
      ((waitUntil host retry.deadline limit state).1 = .ok () → Passes limit segment) := by
  -- the induction is on the time that is left to wait
  induction hmeasure : limit - state.clock using Nat.strong_induction_on generalizing state with
  | h measure ih =>
    rw [waitUntil]
    have hlooked := now_continues host retry state
    by_cases hbefore : (state.now host).clock < limit
    · simp only [if_pos hbefore]
      have hasked := isCancelled_continues host retry (state.now host)
      by_cases hcancelled : ((state.now host).isCancelled host).1 = true
      · simp only [if_pos hcancelled]
        exact ⟨_, hlooked.trans hasked, fun hok => by cases hok⟩
      · simp only [if_neg hcancelled]
        have hagain := now_continues host retry ((state.now host).isCancelled host).2
        generalize hstate : (((state.now host).isCancelled host).2.now host) = again at hagain ⊢
        have hclock : state.clock ≤ again.clock := by
          rw [← hstate]
          exact (clock_le_now host state).trans
            (clock_le_now host ((state.now host).isCancelled host).2)
        by_cases hlate : retry.deadline ≤ again.clock
        · simp only [if_pos hlate]
          exact ⟨_, (hlooked.trans hasked).trans hagain, fun hok => by cases hok⟩
        · simp only [if_neg hlate]
          generalize hslice : min (min (limit - again.clock) (retry.deadline - again.clock))
            waitSlice.nanos = slice
          by_cases hzero : slice = 0
          · simp only [if_pos hzero]
            refine ⟨_, (hlooked.trans hasked).trans hagain, fun _ => Passes.prepend ?_ _⟩
            refine ⟨[], again.clock, [], rfl, ?_⟩
            have hpositive : 0 < waitSlice.nanos := by decide
            omega
          · simp only [if_neg hzero]
            have hless : limit - (again.sleep slice).clock < measure := by
              have hle : slice ≤ limit - again.clock := by omega
              change limit - (again.clock + slice) < measure
              have hstart := clock_le_now host state
              omega
            have hslept : Continues retry again (again.sleep slice) [.sleep again.clock slice] := by
              refine continues_singleton rfl ?_
              change again.clock + slice ≤ retry.deadline
              omega
            obtain ⟨segment, hsegment, hfinished⟩ := ih _ hless (again.sleep slice) rfl
            refine ⟨_, (((hlooked.trans hasked).trans hagain).trans hslept).trans hsegment, ?_⟩
            intro hok
            exact (hfinished hok).prepend _
    · simp only [if_neg hbefore]
      exact ⟨_, hlooked, fun _ => ⟨[], _, [], rfl, Nat.not_lt.mp hbefore⟩⟩

/-- A wait keeps within the longest delay and the deadline, and lasts as long as asked. -/
theorem waitForRetry_continues {delay : Durable.Duration} (state : Sending ω)
    (hdelay : delay.nanos ≤ retry.retryPolicy.maxDelay.nanos) :
    ∃ segment, Continues retry state (waitForRetry host delay retry.deadline state).2 segment ∧
      ((waitForRetry host delay retry.deadline state).1 = .ok () → Waited delay.nanos segment) := by
  unfold waitForRetry
  have hchecked := now_continues host retry state
  by_cases hover : retry.deadline - (state.now host).clock < delay.nanos
  · simp only [if_pos hover]
    exact ⟨_, hchecked, fun hok => by cases hok⟩
  · simp only [if_neg hover]
    let planned : Sending ω :=
      { state.now host with
        trace := (state.now host).trace ++ [RetryEvent.wait delay (state.now host).clock] }
    have hplanned : Continues retry (state.now host) planned
        [.wait delay (state.now host).clock] := by
      exact continues_singleton rfl ⟨hdelay, Nat.not_lt.mp hover⟩
    have hstarted := now_continues host retry planned
    obtain ⟨segment, hsegment, hpasses⟩ := waitUntil_continues host retry
      ((planned.now host).clock + delay.nanos) (planned.now host)
    refine ⟨_, ((hchecked.trans hplanned).trans hstarted).trans hsegment, ?_⟩
    intro hok
    refine ⟨[.clock (state.now host).clock] ++ [.wait delay (state.now host).clock],
      (planned.now host).clock, segment, ?_, hpasses hok⟩
    simp only [List.append_assoc, List.singleton_append]

/-- An attempt that may be made has its checks. -/
theorem askApproval_spec (attempt : ℕ) (state : Sending ω) :
    (state.askApproval host retry attempt = (.ok (), state) ∧
        ∀ operation resource, retry.approval = some (operation, resource) →
          attempt ≤ 1 ∧ retry.approvalPrechecked = true) ∨
      ∃ operation resource, retry.approval = some (operation, resource) ∧
        Continues retry state (state.askApproval host retry attempt).2
          [.approval operation resource (state.approve host operation resource).1] ∧
        ((state.askApproval host retry attempt).1 = .ok () →
          (state.approve host operation resource).1 = true) := by
  unfold askApproval
  cases happroval : retry.approval with
  | none => exact Or.inl ⟨rfl, fun _ _ heq => by cases heq⟩
  | some wanted =>
    obtain ⟨operation, resource⟩ := wanted
    simp only []
    by_cases hask : (1 < attempt || !retry.approvalPrechecked) = true
    · rw [if_pos hask]
      refine Or.inr ⟨operation, resource, rfl, ?_, ?_⟩
      · split
        · exact continues_singleton rfl trivial
        · exact continues_singleton rfl trivial
      · intro hok
        by_contra hdenied
        rw [if_neg hdenied] at hok
        cases hok
    · rw [if_neg hask]
      refine Or.inl ⟨rfl, fun _ _ _ => ?_⟩
      rw [Bool.or_eq_true, decide_eq_true_eq, not_or, Bool.not_eq_true'] at hask
      exact ⟨Nat.not_lt.mp hask.1, by simpa using hask.2⟩

theorem chargeAttempt_continues (attempt : ℕ) (state : Sending ω) :
    Continues retry state (state.chargeAttempt host retry attempt).2
        [.charge (state.checkRate host retry).1] ∧
      ((state.chargeAttempt host retry attempt).1 = .ok () →
        (state.checkRate host retry).1 = .ok ()) := by
  have htrace : (state.checkRate host retry).2.trace =
      state.trace ++ [.charge (state.checkRate host retry).1] := rfl
  unfold chargeAttempt
  generalize state.checkRate host retry = charged at htrace ⊢
  obtain ⟨outcome, later⟩ := charged
  cases outcome with
  | error message =>
    exact ⟨continues_singleton htrace trivial, fun hok => by cases hok⟩
  | ok value =>
    refine ⟨?_, fun _ => rfl⟩
    refine continues_singleton ?_ trivial
    simp only []
    split
    · split
      · exact htrace
      · exact htrace
    · split
      · exact htrace
      · exact htrace

theorem prepare_continues (attempt : ℕ) (state : Sending ω) :
    ∃ segment, Continues retry state (state.prepare host retry attempt).2 segment ∧
      ((state.prepare host retry attempt).1 = .ok () →
        Cleared retry (attempt ≤ 1) segment) := by
  unfold prepare
  have hasked := isCancelled_continues host retry state
  by_cases hcancelled : (state.isCancelled host).1 = true
  · simp only [if_pos hcancelled]
    exact ⟨_, hasked, fun hok => by cases hok⟩
  · simp only [if_neg hcancelled]
    have hfalse : (state.isCancelled host).1 = false := Bool.eq_false_of_not_eq_true hcancelled
    have hlooked := now_continues host retry (state.isCancelled host).2
    generalize (state.isCancelled host).2.now host = looked at hlooked ⊢
    by_cases hlate : retry.deadline ≤ looked.clock
    · simp only [if_pos hlate]
      exact ⟨_, hasked.trans hlooked, fun hok => by cases hok⟩
    · simp only [if_neg hlate]
      have hin : looked.clock < retry.deadline := Nat.lt_of_not_le hlate
      rcases askApproval_spec host retry attempt looked with
        ⟨hsame, hwaived⟩ | ⟨operation, resource, happroval, hanswered, hgranted⟩
      · rw [hsame]
        obtain ⟨hcharged, hcharge⟩ := chargeAttempt_continues host retry attempt looked
        refine ⟨_, (hasked.trans hlooked).trans hcharged, ?_⟩
        intro hok
        rw [hfalse, hcharge hok]
        refine ⟨by simp, ⟨looked.clock, by simp, hin⟩, by simp, ?_⟩
        intro operation resource happroval
        exact Or.inl (hwaived operation resource happroval)
      · generalize looked.askApproval host retry attempt = approved at hanswered hgranted ⊢
        obtain ⟨outcome, later⟩ := approved
        cases outcome with
        | error message =>
          exact ⟨_, (hasked.trans hlooked).trans hanswered, fun hok => by cases hok⟩
        | ok value =>
          obtain ⟨hcharged, hcharge⟩ := chargeAttempt_continues host retry attempt later
          refine ⟨_, ((hasked.trans hlooked).trans hanswered).trans hcharged, ?_⟩
          intro hok
          rw [hfalse, hcharge hok, hgranted rfl]
          refine ⟨by simp, ⟨looked.clock, by simp, hin⟩, by simp, ?_⟩
          intro operation' resource' happroval'
          rw [happroval, Option.some.injEq, Prod.mk.injEq] at happroval'
          rw [← happroval'.1, ← happroval'.2]
          exact Or.inr (by simp)

end Segments

/-! ## The whole loop -/

section Loop

variable {ω : Type} (host : Surroundings ω) {retry : RetryRequest}

/-- Before an attempt: what the attempts so far have left to do. -/
structure Ready (retry : RetryRequest) (completed : ℕ) (trace : List RetryEvent) : Prop where
  kept : History.Throughout (Allowed retry) trace
  count : trace.countP RetryEvent.isSend = completed
  split : ∃ earlier segment, trace = earlier ++ segment ∧
    (∀ event ∈ segment, event.isSend = false) ∧ (completed = 0 → earlier = []) ∧
    (0 < completed → completed < retry.retryPolicy.maxAttempts.val ∧ Again retry earlier segment)

/-- How a request ends. -/
structure Ended (retry : RetryRequest) (result : Except String HttpResponse)
    (trace : List RetryEvent) : Prop where
  kept : History.Throughout (Allowed retry) trace
  count_le : trace.countP RetryEvent.isSend ≤ retry.retryPolicy.maxAttempts.val
  once : retry.eligible = false → trace.countP RetryEvent.isSend ≤ 1
  response_last : ∀ response, result = .ok response →
    ∃ before, trace = before ++ [.send (.ok response)]
  failure_last : ∀ before failure, trace = before ++ [.send (.error failure)] →
    result = .error failure.message

theorem countP_of_quiet {segment : List RetryEvent}
    (hquiet : ∀ event ∈ segment, event.Quiet retry) :
    segment.countP RetryEvent.isSend = 0 := by
  rw [List.countP_eq_zero]
  intro event hevent
  rw [(hquiet event hevent).isSend_eq_false]
  exact Bool.false_ne_true

theorem Ended.of_continues {completed : ℕ} {trace segment : List RetryEvent} {message : String}
    (hkept : History.Throughout (Allowed retry) trace)
    (hcount : trace.countP RetryEvent.isSend = completed)
    (hle : completed ≤ retry.retryPolicy.maxAttempts.val)
    (honce : retry.eligible = false → completed ≤ 1)
    (hnonempty : segment ≠ []) (hquiet : ∀ event ∈ segment, event.Quiet retry) :
    Ended retry (.error message) (trace ++ segment) := by
  have hsame : (trace ++ segment).countP RetryEvent.isSend = completed := by
    rw [List.countP_append, hcount, countP_of_quiet hquiet, Nat.add_zero]
  refine ⟨throughout_append hkept hquiet, hsame.trans_le hle, ?_, fun _ hok => (by cases hok), ?_⟩
  · intro hnot
    rw [hsame]
    exact honce hnot
  · intro before failure hlast
    obtain ⟨rest, event, hevent⟩ := (List.eq_nil_or_concat segment).resolve_left hnonempty
    rw [List.concat_eq_append] at hevent
    rw [hevent, ← List.append_assoc] at hlast
    have hsend := (List.append_inj' hlast rfl).2
    rw [List.cons.injEq] at hsend
    have hquietLast := hquiet event (by rw [hevent]; simp)
    rw [hsend.1] at hquietLast
    exact hquietLast.elim

/-- An attempt after its checks keeps the protocol. -/
theorem Ready.send {completed : ℕ} {trace segment : List RetryEvent}
    (hready : Ready retry completed trace) (hquiet : ∀ event ∈ segment, event.Quiet retry)
    (hcleared : Cleared retry (completed = 0) segment)
    (outcome : Except NetworkFailure HttpResponse) :
    History.Throughout (Allowed retry) (trace ++ segment ++ [RetryEvent.send outcome]) ∧
      (trace ++ segment ++ [RetryEvent.send outcome]).countP RetryEvent.isSend = completed + 1 := by
  obtain ⟨earlier, between, hsplit, hbetween, hnone, hagain⟩ := hready.split
  refine ⟨(throughout_append hready.kept hquiet).concat ?_, ?_⟩
  · refine ⟨earlier, between ++ segment, ?_, ?_, ?_, ?_⟩
    · rw [hsplit, List.append_assoc]
    · intro event hevent
      rcases List.mem_append.mp hevent with hold | hnew
      · exact hbetween event hold
      · exact (hquiet event hnew).isSend_eq_false
    · exact hcleared.mono hnone (List.subset_append_right _ _)
    · rcases Nat.eq_zero_or_pos completed with hzero | hpos
      · exact Or.inl (hnone hzero)
      · obtain ⟨-, heligible, hcalled, hwaited⟩ := hagain hpos
        exact Or.inr ⟨heligible, hcalled, hwaited.append segment⟩
  · rw [List.countP_append, List.countP_append, hready.count, countP_of_quiet hquiet]
    rfl

/-- An attempt that calls for another one leaves the loop ready for it. -/
theorem Ready.again {completed nanos : ℕ} {trace segment : List RetryEvent}
    {outcome : Except NetworkFailure HttpResponse} (hvalid : retry.retryPolicy.Valid)
    (hkept : History.Throughout (Allowed retry) (trace ++ [RetryEvent.send outcome]))
    (hcount : (trace ++ [RetryEvent.send outcome]).countP RetryEvent.isSend = completed)
    (hless : completed < retry.retryPolicy.maxAttempts.val) (heligible : retry.eligible = true)
    (hretried : Retried outcome) (hquiet : ∀ event ∈ segment, event.Quiet retry)
    (hwaited : Waited nanos segment) (hnanos : (retry.retryPolicy.delay completed).nanos ≤ nanos) :
    Ready retry completed (trace ++ [RetryEvent.send outcome] ++ segment) := by
  refine ⟨throughout_append hkept hquiet, ?_, trace ++ [RetryEvent.send outcome], segment,
    rfl, ?_, ?_, ?_⟩
  · rw [List.countP_append, hcount, countP_of_quiet hquiet, Nat.add_zero]
  · intro event hevent
    exact (hquiet event hevent).isSend_eq_false
  · intro hzero
    rw [List.countP_append, hzero] at hcount
    cases hcount
  · intro _
    refine ⟨hless, heligible, ⟨trace, outcome, rfl, hretried⟩, ?_⟩
    rw [hcount, ← hvalid.delay_eq hless.le]
    exact hwaited.mono hnanos

theorem Ended.of_send {completed : ℕ} {trace : List RetryEvent}
    {outcome : Except NetworkFailure HttpResponse}
    (hkept : History.Throughout (Allowed retry) (trace ++ [RetryEvent.send outcome]))
    (hcount : (trace ++ [RetryEvent.send outcome]).countP RetryEvent.isSend = completed)
    (hle : completed ≤ retry.retryPolicy.maxAttempts.val)
    (honce : retry.eligible = false → completed ≤ 1) :
    Ended retry (outcome.mapError NetworkFailure.message) (trace ++ [RetryEvent.send outcome]) := by
  refine ⟨hkept, hcount.trans_le hle, ?_, ?_, ?_⟩
  · intro hnot
    rw [hcount]
    exact honce hnot
  · intro response hok
    cases outcome with
    | ok found =>
      cases hok
      exact ⟨trace, rfl⟩
    | error failure => cases hok
  · intro before failure hlast
    have hsend := (List.append_inj' hlast rfl).2
    rw [List.cons.injEq, RetryEvent.send.injEq] at hsend
    rw [hsend.1]
    rfl

theorem attemptSend_trace (retry : RetryRequest) (state : Sending ω) :
    (state.attemptSend host retry).2.trace =
      state.trace ++ [.clock (state.now host).clock] ++
        [.send (state.attemptSend host retry).1] := rfl

/-- A wait ends the loop, or leaves it ready for the next attempt. -/
theorem ended_of_wait (hvalid : retry.retryPolicy.Valid) {completed : ℕ} {sent : Sending ω}
    {trace : List RetryEvent} {outcome : Except NetworkFailure HttpResponse}
    {delay : Durable.Duration} (hsent : sent.trace = trace ++ [RetryEvent.send outcome])
    (hkept : History.Throughout (Allowed retry) (trace ++ [RetryEvent.send outcome]))
    (hcount : (trace ++ [RetryEvent.send outcome]).countP RetryEvent.isSend = completed)
    (hless : completed < retry.retryPolicy.maxAttempts.val) (heligible : retry.eligible = true)
    (hretried : Retried outcome) (hlower : (retry.retryPolicy.delay completed).nanos ≤ delay.nanos)
    (hupper : delay.nanos ≤ retry.retryPolicy.maxDelay.nanos)
    (next : Sending ω → Except String HttpResponse × Sending ω)
    (hnext : ∀ later : Sending ω, Ready retry completed later.trace →
      Ended retry (next later).1 (next later).2.trace) :
    let result : Except String HttpResponse × Sending ω :=
      match sent.waitForRetry host delay retry.deadline with
      | (.error message, state) => (.error message, state)
      | (.ok (), state) => next state
    Ended retry result.1 result.2.trace := by
  obtain ⟨segment, hsegment, hwaited⟩ := waitForRetry_continues host retry sent hupper
  generalize sent.waitForRetry host delay retry.deadline = waited at hsegment hwaited ⊢
  obtain ⟨answer, later⟩ := waited
  have htrace : later.trace = trace ++ [RetryEvent.send outcome] ++ segment := by
    rw [← hsent]
    exact hsegment.1
  cases answer with
  | error message =>
    simp only []
    rw [htrace]
    refine Ended.of_continues hkept hcount hless.le ?_ hsegment.2.1 hsegment.2.2
    intro hnot
    rw [heligible] at hnot
    cases hnot
  | ok value =>
    refine hnext later ?_
    rw [htrace]
    exact Ready.again hvalid hkept hcount hless heligible hretried hsegment.2.2 (hwaited rfl) hlower

theorem retried_of_status {response : HttpResponse}
    (hstatus : retryableStatus response.status = true) : Retried (.ok response) := by
  unfold retryableStatus at hstatus
  unfold Retried
  simpa [or_assoc] using hstatus

theorem sendLoop_ended (hvalid : retry.retryPolicy.Valid) {completed : ℕ} {state : Sending ω}
    (hready : Ready retry completed state.trace)
    (hless : completed < retry.retryPolicy.maxAttempts.val) :
    Ended retry (sendLoop host retry completed state).1
      (sendLoop host retry completed state).2.trace := by
  -- the induction is on the attempts that are left
  induction hleft : retry.retryPolicy.maxAttempts.val - completed using Nat.strong_induction_on
    generalizing completed state with
  | h left ih =>
    have hattempt : min (completed + 1) 255 = completed + 1 := by
      have hlt := retry.retryPolicy.maxAttempts.isLt
      omega
    have honce : retry.eligible = false → completed = 0 := by
      intro hnot
      obtain ⟨_, _, _, _, _, hagain⟩ := hready.split
      by_contra hpos
      rw [(hagain (Nat.pos_of_ne_zero hpos)).2.eligible] at hnot
      cases hnot
    rw [sendLoop]
    simp only [hattempt]
    obtain ⟨checks, hchecks, hcleared⟩ := prepare_continues host retry (completed + 1)
      state
    cases hprepared : state.prepare host retry (completed + 1) with
    | mk outcome prepared =>
    rw [hprepared] at hchecks hcleared
    cases outcome with
    | error message =>
      simp only []
      rw [hchecks.1]
      exact Ended.of_continues hready.kept hready.count hless.le
        (fun hnot => by rw [honce hnot]; exact Nat.zero_le 1) hchecks.2.1 hchecks.2.2
    | ok value =>
      simp only []
      have htrace := attemptSend_trace host retry prepared
      have hlooked := now_continues host retry prepared
      cases hsent : prepared.attemptSend host retry with
      | mk outcome sent =>
      rw [hsent] at htrace
      have hsegment := hchecks.trans hlooked
      obtain ⟨hkept, hcount⟩ := hready.send hsegment.2.2
        ((hcleared rfl).mono (fun hle => by omega) (List.subset_append_left _ _)) outcome
      rw [← hsegment.1] at hkept hcount
      have hsentTrace : sent.trace =
          (prepared.now host).trace ++ [RetryEvent.send outcome] := htrace
      have hdone : Ended retry (outcome.mapError NetworkFailure.message) sent.trace := by
        rw [hsentTrace]
        exact Ended.of_send hkept hcount hless (fun hnot => by rw [honce hnot])
      have hnext : completed + 1 < retry.retryPolicy.maxAttempts.val → ∀ later : Sending ω,
          Ready retry (completed + 1) later.trace →
          Ended retry (sendLoop host retry (completed + 1) later).1
            (sendLoop host retry (completed + 1) later).2.trace := by
        intro hmore later hlater
        exact ih _ (by omega) hlater hmore rfl
      cases outcome with
      | ok response =>
        by_cases hagain : retry.eligible = true ∧ retryableStatus response.status = true ∧
            completed + 1 < retry.retryPolicy.maxAttempts.val
        · simp only [if_pos hagain]
          obtain ⟨heligible, hstatus, hmore⟩ := hagain
          exact ended_of_wait host hvalid hsentTrace hkept hcount hmore heligible
            (retried_of_status hstatus) (delay_le_retryDelay _ _ _) (retryDelay_le _ _ _) _
            (hnext hmore)
        · simp only [if_neg hagain]
          exact hdone
      | error failure =>
        by_cases hagain : failure.retryable = true ∧ retry.eligible = true ∧
            completed + 1 < retry.retryPolicy.maxAttempts.val
        · simp only [if_pos hagain]
          obtain ⟨hfailure, heligible, hmore⟩ := hagain
          exact ended_of_wait host hvalid hsentTrace hkept hcount hmore heligible
            (beq_iff_eq.mp hfailure) (le_refl _) (retry.retryPolicy.delay_le _) _ (hnext hmore)
        · simp only [if_neg hagain]
          exact hdone

/-- Whatever its surroundings answer, a request with a valid policy keeps the protocol of
its attempts: they are bounded, each has its checks and its wait after the one before it,
waits stay within the longest delay and the deadline, and the last outcome or an error is
the result. -/
theorem send_with_retry_keeps_protocol (retry : RetryRequest) {state : Sending ω}
    (hpolicy : retry.retryPolicy.validate = .ok ()) (hstart : state.trace = []) :
    Ended retry (sendWithRetry host retry state).1 (sendWithRetry host retry state).2.trace := by
  have hvalid := RetryPolicy.valid_of_validate hpolicy
  refine sendLoop_ended host hvalid ?_ hvalid.attempts.1
  rw [hstart]
  refine ⟨History.throughout_nil, rfl, [], [], rfl, ?_, fun _ => rfl, ?_⟩
  · intro event hevent
    cases hevent
  · intro hpos
    cases hpos

end Loop

end Sending

/-! ## A world for an example -/

/-- A world that answers with a list of outcomes, one millisecond after another. -/
def sampleSurroundings : Surroundings (List (Except NetworkFailure HttpResponse)) :=
  { cancelled := fun world => (false, world)
    elapsed := fun world => (1000000, world)
    approve := fun _ _ world => (true, world)
    checkRate := fun _ _ _ world => (.ok (), world)
    send := fun _ _ world =>
      match world with
      | [] => (.error ⟨.fatal, "outbound HTTP request failed"⟩, [])
      | outcome :: rest => (outcome, rest) }

def sampleRetry : RetryRequest :=
  { request := { sampleRequest with method := ⟨"GET", by decide⟩ }
    rateResource := .http "https://example.com"
    rateLabel := "https://example.com"
    ratePolicy := sampleRate
    retryPolicy :=
      { maxAttempts := ⟨3, by decide⟩, baseDelay := .fromMillis 25, maxDelay := .fromMillis 200 }
    approval := some (.httpBearer, "https://example.com")
    approvalLabel := "https://example.com"
    approvalPrechecked := true
    deadline := 1000000000
    safety := .fromRequest }

def sampleSending : Sending (List (Except NetworkFailure HttpResponse)) :=
  { world := [.error ⟨.retryable, "connect failed"⟩, .ok sampleResponse]
    clock := 0
    networkAttempts := 0
    retries := 0
    rateLimitDenials := 0
    trace := [] }

theorem send_with_retry_keeps_protocol_sample :
    (sampleSending.sendWithRetry sampleSurroundings sampleRetry).1 = .ok sampleResponse ∧
      Sending.Ended sampleRetry
        (sampleSending.sendWithRetry sampleSurroundings sampleRetry).1
        (sampleSending.sendWithRetry sampleSurroundings sampleRetry).2.trace :=
  ⟨by decide +kernel,
    Sending.send_with_retry_keeps_protocol sampleSurroundings sampleRetry (by decide) rfl⟩

end Krit.Policy
