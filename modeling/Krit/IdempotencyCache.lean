import Mathlib.Data.List.MinMax
import Krit.Errors
import Krit.Lib.History
import Krit.Lib.TreeTotal
import Krit.RequestDigest
import Krit.Store

/-!
# Idempotent requests in memory

A host without a durable store remembers the responses of idempotent requests itself.
A decision drops the entries that have expired, counts the bytes of the others again and
looks the key of the request up; a completion stores a response, replacing the entry of
its key and evicting the least recently used entries until it fits.

Calls take the lock of the state, so they are serialized; a poisoned lock is not
modelled.  Instants and durations are nanoseconds.
-/

namespace Krit.Policy

open Std TreeTotal Machine

/-! ## Policies and responses -/

def maxIdempotencyEntries : ℕ := 1024

def maxIdempotencyBytes : ℕ := 64 * 1024 * 1024

def maxIdempotencyTtl : Durable.Duration := .fromSecs (60 * 60)

def maxIdempotencyKeyBytes : ℕ := 128

structure IdempotencyPolicy where
  maxEntries : ℕ
  maxBytes : ℕ
  ttl : Durable.Duration
  maxKeyBytes : ℕ
  deriving DecidableEq, Repr

def IdempotencyPolicy.validate (policy : IdempotencyPolicy) : Except RuntimeError Unit :=
  if policy.maxEntries > maxIdempotencyEntries ∨ policy.maxBytes > maxIdempotencyBytes ∨
      policy.ttl.nanos = 0 ∨ policy.ttl.nanos > maxIdempotencyTtl.nanos ∨
      policy.maxKeyBytes = 0 ∨ policy.maxKeyBytes > maxIdempotencyKeyBytes then
    .error (.setup "idempotency policy exceeds host hard maxima")
  else .ok ()

structure RuntimeLimits where
  headerCount : ℕ
  headerBytes : ℕ
  responseBodyBytes : ℕ

structure HttpResponse where
  status : ℤ
  headers : List HttpHeader
  body : Text
  deriving DecidableEq

/-- What the host takes from elsewhere: the hash, the checks of header names and values,
and the sizes of its records in memory. -/
structure Environment where
  hash : List UInt8 → List UInt8
  headerName : Text → Option String
  headerValueAccepted : Text → Bool
  responseSize : ℕ
  headerSize : ℕ

def Text.length (text : Text) : ℕ := text.text.utf8ByteSize

def forbiddenHeader (name : String) : Bool :=
  ["authorization", "connection", "content-length", "host", "keep-alive", "proxy-authenticate",
    "proxy-authorization", "proxy-connection", "te", "trailer", "transfer-encoding",
    "upgrade"].contains name

section Responses

variable (env : Environment)

/-- The checks of one header, with the bytes of the headers before it. -/
def validateHeader (limits : RuntimeLimits) (bytes : ℕ) (header : HttpHeader) :
    Except RuntimeError ℕ := do
  let name ← Result.ofOption (.guest "K4001" "HTTP header name is invalid")
    (env.headerName header.name)
  Result.ensure (env.headerValueAccepted header.value)
    (.guest "K4001" "HTTP header value is invalid")
  Result.ensure (!forbiddenHeader name)
    (.guest "K4001" ("HTTP header `" ++ name ++ "` is not permitted"))
  let bytes ← Result.ofOption (.resource "HTTP header byte count overflowed")
    ((Machine.checkedAdd bytes header.name.length).bind (Machine.checkedAdd · header.value.length))
  Result.ensure (bytes ≤ limits.headerBytes)
    (.resource ("HTTP headers exceed the " ++ toString limits.headerBytes ++ "-byte limit"))
  pure bytes

def validateHeaders (headers : List HttpHeader) (limits : RuntimeLimits) :
    Except RuntimeError Unit := do
  Result.ensure (headers.length ≤ limits.headerCount)
    (.resource ("HTTP header count exceeds the " ++ toString limits.headerCount ++
      "-header limit"))
  let _ ← headers.foldlM (validateHeader env limits) 0
  pure ()

def HttpResponse.validate (response : HttpResponse) (limits : RuntimeLimits) :
    Except RuntimeError Unit := do
  Result.ensure (100 ≤ response.status && response.status ≤ 599)
    (.guest "K4001" "HTTP response status must be in 100..=599")
  validateHeaders env response.headers limits
  Result.ensure (response.body.length ≤ limits.responseBodyBytes)
    (.resource ("HTTP response body exceeds the " ++ toString limits.responseBodyBytes ++
      "-byte limit"))

def cachedResponseSize (response : HttpResponse) : Option ℕ := do
  let bytes ← Machine.checkedAdd env.responseSize response.body.length
  let headers ← Machine.checkedMul env.headerSize response.headers.length
  let bytes ← Machine.checkedAdd bytes headers
  response.headers.foldlM
    (fun bytes header => do
      let bytes ← Machine.checkedAdd bytes header.name.length
      Machine.checkedAdd bytes header.value.length)
    bytes

end Responses

def validIdempotencyKey (value : Text) (maximum : ℕ) : Bool :=
  value.text != "" && value.length ≤ maximum && value.text.toList.all fun char =>
    char.isAlphanum || char == '.' || char == '_' || char == ':' || char == '-'

structure ArtifactMetadata where
  packageName : Text
  packageVersion : Text
  world : Text
  digest : Text

def artifactIdentity (env : Environment) (metadata : ArtifactMetadata) : List UInt8 :=
  let hasher := hashPart [] metadata.packageName.asBytes
  let hasher := hashPart hasher metadata.packageVersion.asBytes
  let hasher := hashPart hasher metadata.world.asBytes
  let hasher := hashPart hasher metadata.digest.asBytes
  env.hash hasher

/-! ## The state -/

/-- An artifact and the key of a request. -/
abbrev IdempotencyKey := List UInt8 × String

instance : Ord IdempotencyKey := lexOrd

structure IdempotencyEntry where
  digest : List UInt8
  response : HttpResponse
  sizeBytes : ℕ
  expires : ℕ
  lastUsed : ℕ

structure IdempotencyState where
  entries : TreeMap IdempotencyKey IdempotencyEntry
  bytes : ℕ
  sequence : ℕ

structure IdempotencyToken where
  key : IdempotencyKey
  digest : List UInt8
  deriving DecidableEq

inductive IdempotencyDecision where
  | execute (token : Option IdempotencyToken)
  | replay (response : HttpResponse)
  | conflict
  | reject (message : String)
  deriving DecidableEq

namespace IdempotencyState

def empty : IdempotencyState := { entries := ∅, bytes := 0, sequence := 0 }

/-- Drops what has expired and looks a key up. -/
def lookup (env : Environment) (state : IdempotencyState) (key : IdempotencyKey)
    (digest : List UInt8) (limits : RuntimeLimits) (now : ℕ) :
    Except RuntimeError IdempotencyDecision × IdempotencyState :=
  let entries := state.entries.filter fun _ entry => now < entry.expires
  let bytes := entries.toList.foldl (fun total entry => saturatingAdd total entry.2.sizeBytes) 0
  let sequence := saturatingAdd state.sequence 1
  match entries[key]? with
  | some entry =>
      let entries := entries.insert key { entry with lastUsed := sequence }
      if entry.digest = digest then
        match entry.response.validate env limits with
        | .error error => (.error error, { entries, bytes, sequence })
        | .ok () => (.ok (.replay entry.response), { entries, bytes, sequence })
      else (.ok .conflict, { entries, bytes, sequence })
  | none => (.ok (.execute (some { key, digest })), { entries, bytes, sequence })

def remove (state : IdempotencyState) (key : IdempotencyKey) : IdempotencyState :=
  match state.entries[key]? with
  | none => state
  | some entry =>
      { state with
        entries := state.entries.erase key
        bytes := state.bytes - entry.sizeBytes }

/-- The least recently used entry. -/
def oldest (state : IdempotencyState) : Option (IdempotencyKey × IdempotencyEntry) :=
  state.entries.toList.argmin fun entry => entry.2.lastUsed

/-- A response of some size does not fit yet. -/
def full (state : IdempotencyState) (policy : IdempotencyPolicy) (size : ℕ) : Bool :=
  policy.maxEntries ≤ state.entries.size ||
    (Machine.checkedAdd state.bytes size).all fun bytes => policy.maxBytes < bytes

theorem oldest_mem {state : IdempotencyState} {entry : IdempotencyKey × IdempotencyEntry}
    (holdest : state.oldest = some entry) : state.entries[entry.1]? = some entry.2 := by
  rw [← TreeMap.mem_toList_iff_getElem?_eq_some]
  exact List.argmin_mem holdest

theorem size_remove {state : IdempotencyState} {key : IdempotencyKey} {entry : IdempotencyEntry}
    (hentry : state.entries[key]? = some entry) :
    (state.remove key).entries.size + 1 = state.entries.size := by
  unfold remove
  rw [hentry]
  simp only []
  rw [← total_one_eq_size, ← total_one_eq_size, total_erase (fun _ _ => 1) hentry]
  omega

/-- Evicts entries until a response of some size fits, or none is left. -/
def makeRoom (policy : IdempotencyPolicy) (size : ℕ) (state : IdempotencyState) :
    IdempotencyState :=
  if state.full policy size then
    match _ : state.oldest with
    | none => state
    | some entry => makeRoom policy size (state.remove entry.1)
  else state
termination_by state.entries.size
decreasing_by
  rename_i holdest
  have hsize := size_remove (oldest_mem holdest)
  omega

/-- Stores the response of a request. -/
def store (policy : IdempotencyPolicy) (state : IdempotencyState) (token : IdempotencyToken)
    (response : HttpResponse) (size now : ℕ) : Except RuntimeError Unit × IdempotencyState :=
  let state := (state.remove token.key).makeRoom policy size
  let sequence := saturatingAdd state.sequence 1
  let entries := state.entries.insert token.key
    { digest := token.digest
      response
      sizeBytes := size
      expires := now + policy.ttl.nanos
      lastUsed := sequence }
  match Machine.checkedAdd state.bytes size with
  | none =>
      (.error (.resource "idempotency cache byte count overflowed"),
        { entries, bytes := state.bytes, sequence })
  | some bytes => (.ok (), { entries, bytes, sequence })

end IdempotencyState

def idempotencyDecision (env : Environment) (policy : IdempotencyPolicy)
    (state : IdempotencyState) (metadata : ArtifactMetadata) (request : HttpRequest)
    (limits : RuntimeLimits) (now : ℕ) :
    Except RuntimeError IdempotencyDecision × IdempotencyState :=
  if ["GET", "HEAD", "OPTIONS", "TRACE"].contains request.method.text then
    (.ok (.execute none), state)
  else
    match request.headers.filter HttpHeader.isIdempotencyKey with
    | [] => (.ok (.execute none), state)
    | header :: more =>
        if more ≠ [] then (.ok (.reject "Idempotency-Key may appear only once"), state)
        else if !validIdempotencyKey header.value policy.maxKeyBytes then
          (.ok (.reject "Idempotency-Key is invalid or exceeds the configured bound"), state)
        else
          state.lookup env (artifactIdentity env metadata, header.value.text)
            (requestDigest env.hash request) limits now

def completeIdempotency (env : Environment) (policy : IdempotencyPolicy)
    (state : IdempotencyState) (token : Option IdempotencyToken) (response : HttpResponse)
    (now : ℕ) : Except RuntimeError Unit × IdempotencyState :=
  match token with
  | none => (.ok (), state)
  | some token =>
      if policy.maxEntries = 0 ∨ policy.maxBytes = 0 then (.ok (), state)
      else
        match cachedResponseSize env response with
        | none => (.ok (), state)
        | some size =>
            if size > policy.maxBytes then (.ok (), state)
            else state.store policy token response size now

/-! ## The bounds -/

namespace IdempotencyState

/-- The bytes of the entries that are held. -/
def held (state : IdempotencyState) : ℕ :=
  total (fun _ entry => entry.sizeBytes) state.entries

/-- The bytes are counted exactly, and the policy's bounds are kept. -/
structure Bounded (policy : IdempotencyPolicy) (state : IdempotencyState) : Prop where
  exact : state.bytes = state.held
  entries : state.entries.size ≤ policy.maxEntries
  bytes : state.bytes ≤ policy.maxBytes

variable {policy : IdempotencyPolicy} {state : IdempotencyState}

theorem bounded_empty (policy : IdempotencyPolicy) : Bounded policy empty where
  exact := rfl
  entries := Nat.zero_le _
  bytes := Nat.zero_le _

theorem held_remove (hexact : state.bytes = state.held) (key : IdempotencyKey) :
    (state.remove key).bytes = (state.remove key).held := by
  unfold remove
  cases hentry : state.entries[key]? with
  | none => exact hexact
  | some entry =>
    have htotal := total_erase (fun _ (entry : IdempotencyEntry) => entry.sizeBytes) hentry
    unfold held at hexact ⊢
    simp only []
    omega

theorem getElem?_remove {key other : IdempotencyKey} {entry : IdempotencyEntry}
    (hentry : (state.remove key).entries[other]? = some entry) :
    state.entries[other]? = some entry := by
  unfold remove at hentry
  cases hfound : state.entries[key]? with
  | none =>
    rw [hfound] at hentry
    exact hentry
  | some found =>
    rw [hfound] at hentry
    simp only [] at hentry
    by_cases hsame : key = other
    · rw [hsame, getElem?_erase_self] at hentry
      cases hentry
    · rw [getElem?_erase_of_ne _ hsame] at hentry
      exact hentry

theorem getElem?_remove_self (state : IdempotencyState) (key : IdempotencyKey) :
    (state.remove key).entries[key]? = none := by
  unfold remove
  cases hentry : state.entries[key]? with
  | none => exact hentry
  | some entry => exact getElem?_erase_self _ key

theorem not_full_iff {size : ℕ} : state.full policy size = false ↔
    state.entries.size < policy.maxEntries ∧
      ∃ bytes, Machine.checkedAdd state.bytes size = some bytes ∧ bytes ≤ policy.maxBytes := by
  unfold full
  rw [Bool.or_eq_false_iff, decide_eq_false_iff_not, Nat.not_le]
  cases Machine.checkedAdd state.bytes size with
  | none => simp
  | some bytes => simp

theorem oldest_eq_none (holdest : state.oldest = none) : state.entries.size = 0 := by
  unfold oldest at holdest
  rw [List.argmin_eq_none] at holdest
  rw [← TreeMap.length_toList, holdest]
  rfl

/-- What the eviction loop keeps, by induction on its turns. -/
theorem makeRoom_induction {motive : IdempotencyState → Prop} (policy : IdempotencyPolicy)
    (size : ℕ) (hremove : ∀ state key, motive state → motive (state.remove key))
    {state : IdempotencyState} (hstate : motive state) : motive (state.makeRoom policy size) := by
  induction state using makeRoom.induct policy size with
  | case1 state hfull holdest =>
    rw [makeRoom, if_pos hfull]
    split
    · exact hstate
    · rename_i entry hentry
      rw [holdest] at hentry
      cases hentry
  | case2 state hfull entry holdest ih =>
    rw [makeRoom, if_pos hfull]
    split
    · exact hstate
    · rename_i other hother
      rw [holdest, Option.some.injEq] at hother
      rw [← hother]
      exact ih (hremove state entry.1 hstate)
  | case3 state hfull =>
    rw [makeRoom, if_neg hfull]
    exact hstate

theorem held_eq_zero (hsize : state.entries.size = 0) : state.held = 0 := by
  unfold held total
  rw [← TreeMap.length_toList, List.length_eq_zero_iff] at hsize
  rw [hsize]
  rfl

theorem exact_makeRoom (hexact : state.bytes = state.held) (policy : IdempotencyPolicy)
    (size : ℕ) : (state.makeRoom policy size).bytes = (state.makeRoom policy size).held :=
  makeRoom_induction (motive := fun state => state.bytes = state.held) policy size
    (fun _ key hstate => held_remove hstate key) hexact

/-- The eviction loop ends with room for the response: an empty cache has room for every
response that is not larger than the whole of it. -/
theorem makeRoom_fits (hentries : 0 < policy.maxEntries) (hword : policy.maxBytes < wordCount)
    {size : ℕ} (hsize : size ≤ policy.maxBytes) (hexact : state.bytes = state.held) :
    (state.makeRoom policy size).full policy size = false := by
  induction state using makeRoom.induct policy size with
  | case1 state hfull holdest =>
    have hzero := oldest_eq_none holdest
    have hbytes : state.bytes = 0 := by rw [hexact, held_eq_zero hzero]
    have hfits : state.full policy size = false := by
      refine not_full_iff.mpr ⟨by omega, size, ?_, hsize⟩
      unfold Machine.checkedAdd
      rw [hbytes, if_pos (by omega), Nat.zero_add]
    rw [hfits] at hfull
    cases hfull
  | case2 state hfull entry holdest ih =>
    rw [makeRoom, if_pos hfull]
    split
    · rename_i hnone
      rw [holdest] at hnone
      cases hnone
    · rename_i other hother
      rw [holdest, Option.some.injEq] at hother
      rw [← hother]
      exact ih (held_remove hexact entry.1)
  | case3 state hfull =>
    rw [makeRoom, if_neg hfull]
    simpa using hfull

theorem getElem?_makeRoom {size : ℕ} {key : IdempotencyKey} {entry : IdempotencyEntry}
    (hentry : (state.makeRoom policy size).entries[key]? = some entry) :
    state.entries[key]? = some entry := by
  have hsub : ∀ (other : IdempotencyKey) (found : IdempotencyEntry),
      (state.makeRoom policy size).entries[other]? = some found →
      state.entries[other]? = some found := by
    refine makeRoom_induction (motive := fun later => ∀ (other : IdempotencyKey) found,
      later.entries[other]? = some found → state.entries[other]? = some found) policy size ?_ ?_
    · intro later removed hlater other found hfound
      exact hlater other found (getElem?_remove hfound)
    · intro other found hfound
      exact hfound
  exact hsub key entry hentry

/-- Storing a response keeps the bounds, and does not fail. -/
theorem bounded_store (hentries : 0 < policy.maxEntries) (hword : policy.maxBytes < wordCount)
    {size : ℕ} (hsize : size ≤ policy.maxBytes) (hexact : state.bytes = state.held)
    (token : IdempotencyToken) (response : HttpResponse) (now : ℕ) :
    (state.store policy token response size now).1 = .ok () ∧
      Bounded policy (state.store policy token response size now).2 := by
  have hremoved := held_remove hexact token.key
  have hroom := makeRoom_fits hentries hword hsize hremoved
  have hexactRoom := exact_makeRoom hremoved policy size
  obtain ⟨hcount, bytes, hadd, hbytes⟩ := not_full_iff.mp hroom
  have hsum : bytes = ((state.remove token.key).makeRoom policy size).bytes + size := by
    unfold Machine.checkedAdd at hadd
    split at hadd
    · rw [Option.some.injEq] at hadd
      exact hadd.symm
    · cases hadd
  have habsent : ((state.remove token.key).makeRoom policy size).entries[token.key]? = none := by
    rw [Option.eq_none_iff_forall_not_mem]
    intro entry hentry
    have hstays := getElem?_makeRoom hentry
    rw [getElem?_remove_self] at hstays
    cases hstays
  unfold store
  simp only [hadd]
  refine ⟨trivial, ?_, ?_, hbytes⟩
  · have htotal := total_insert_new (fun _ (entry : IdempotencyEntry) => entry.sizeBytes) habsent
      { digest := token.digest
        response
        sizeBytes := size
        expires := now + policy.ttl.nanos
        lastUsed := saturatingAdd ((state.remove token.key).makeRoom policy size).sequence 1 }
    unfold held at hexactRoom ⊢
    simp only [] at htotal ⊢
    rw [htotal, hsum, hexactRoom]
    omega
  · simp only []
    rw [← total_one_eq_size, total_insert_new _ habsent, total_one_eq_size]
    omega

/-- Counting again without overflow gives the bytes that are held. -/
theorem foldl_saturatingAdd (entries : List (IdempotencyKey × IdempotencyEntry)) (start : ℕ)
    (hword : start + (entries.map fun entry => entry.2.sizeBytes).sum < wordCount) :
    entries.foldl (fun total entry => saturatingAdd total entry.2.sizeBytes) start =
      start + (entries.map fun entry => entry.2.sizeBytes).sum := by
  induction entries generalizing start with
  | nil => simp
  | cons entry rest ih =>
    rw [List.map_cons, List.sum_cons] at hword ⊢
    have hadd : saturatingAdd start entry.2.sizeBytes = start + entry.2.sizeBytes := by
      unfold saturatingAdd
      rw [min_eq_left (by omega)]
    rw [List.foldl_cons, hadd, ih _ (by omega)]
    omega

/-- The entries that have not expired. -/
def live (state : IdempotencyState) (now : ℕ) : TreeMap IdempotencyKey IdempotencyEntry :=
  state.entries.filter fun _ entry => now < entry.expires

theorem getElem?_live {now : ℕ} {key : IdempotencyKey} {entry : IdempotencyEntry} :
    (state.live now)[key]? = some entry ↔
      state.entries[key]? = some entry ∧ now < entry.expires := by
  unfold live
  rw [TreeMap.getElem?_filter', Option.filter_eq_some_iff, decide_eq_true_eq]

/-- The bytes of the entries that have not expired, as a lookup counts them. -/
def recount (state : IdempotencyState) (now : ℕ) : ℕ :=
  (state.live now).toList.foldl (fun total entry => saturatingAdd total entry.2.sizeBytes) 0

theorem recount_eq (hword : policy.maxBytes < wordCount) (hbounded : Bounded policy state)
    (now : ℕ) :
    state.recount now = total (fun _ entry => entry.sizeBytes) (state.live now) := by
  have hle := total_filter_le (fun _ (entry : IdempotencyEntry) => entry.sizeBytes) state.entries
    fun _ entry => decide (now < entry.expires)
  have hheld : state.held ≤ policy.maxBytes := by
    rw [← hbounded.exact]
    exact hbounded.bytes
  have hsum : total (fun _ entry => entry.sizeBytes) (state.live now) =
      ((state.live now).toList.map fun entry => entry.2.sizeBytes).sum := rfl
  have hfits : total (fun _ entry => entry.sizeBytes) (state.live now) < wordCount := by
    unfold held at hheld
    unfold live
    omega
  unfold recount
  rw [foldl_saturatingAdd _ _ (by rw [← hsum]; omega), hsum, Nat.zero_add]

/-- A lookup misses, or finds an entry that has not expired and uses it; it replays the
response of that entry only under its digest. -/
theorem lookup_cases (env : Environment) (state : IdempotencyState) (key : IdempotencyKey)
    (digest : List UInt8) (limits : RuntimeLimits) (now : ℕ) :
    ((state.lookup env key digest limits now).1 = .ok (.execute (some { key, digest })) ∧
      (state.lookup env key digest limits now).2 =
        { entries := state.live now
          bytes := state.recount now
          sequence := saturatingAdd state.sequence 1 }) ∨
    ∃ entry, (state.live now)[key]? = some entry ∧
      (∀ response, (state.lookup env key digest limits now).1 = .ok (.replay response) →
        response = entry.response ∧ entry.digest = digest) ∧
      (state.lookup env key digest limits now).2 =
        { entries := (state.live now).insert key
            { entry with lastUsed := saturatingAdd state.sequence 1 }
          bytes := state.recount now
          sequence := saturatingAdd state.sequence 1 } := by
  unfold lookup
  have hlive : (state.entries.filter fun _ entry => decide (now < entry.expires)) =
      state.live now := rfl
  simp only [hlive]
  cases hfound : (state.live now)[key]? with
  | none => exact Or.inl ⟨rfl, rfl⟩
  | some entry =>
    right
    refine ⟨entry, rfl, ?_, ?_⟩
    · intro response hreplay
      by_cases hdigest : entry.digest = digest
      · simp only [if_pos hdigest] at hreplay
        cases hvalid : entry.response.validate env limits with
        | error error =>
          rw [hvalid] at hreplay
          cases hreplay
        | ok _ =>
          rw [hvalid] at hreplay
          cases hreplay
          exact ⟨rfl, hdigest⟩
      · simp only [if_neg hdigest] at hreplay
        cases hreplay
    · by_cases hdigest : entry.digest = digest
      · simp only [if_pos hdigest]
        cases entry.response.validate env limits with
        | error error => rfl
        | ok _ => rfl
      · simp only [if_neg hdigest]
        rfl

/-- An entry after a lookup was there before, with the same response, digest and end. -/
theorem getElem?_lookup {env : Environment} {key other : IdempotencyKey} {digest : List UInt8}
    {limits : RuntimeLimits} {now : ℕ} {entry : IdempotencyEntry}
    (hentry : (state.lookup env key digest limits now).2.entries[other]? = some entry) :
    ∃ old, state.entries[other]? = some old ∧ entry.digest = old.digest ∧
      entry.response = old.response ∧ entry.expires = old.expires := by
  rcases lookup_cases env state key digest limits now with ⟨-, hstate⟩ | ⟨found, hfound, -, hstate⟩
  · rw [hstate] at hentry
    exact ⟨entry, (getElem?_live.mp hentry).1, rfl, rfl, rfl⟩
  · rw [hstate] at hentry
    simp only [] at hentry
    by_cases hsame : key = other
    · rw [hsame, getElem?_insert_self, Option.some.injEq] at hentry
      rw [hsame] at hfound
      rw [← hentry]
      exact ⟨found, (getElem?_live.mp hfound).1, rfl, rfl, rfl⟩
    · rw [getElem?_insert_of_ne _ hsame] at hentry
      exact ⟨entry, (getElem?_live.mp hentry).1, rfl, rfl, rfl⟩

theorem bounded_live (hbounded : Bounded policy state) (now : ℕ) :
    (state.live now).size ≤ policy.maxEntries ∧
      total (fun _ entry => entry.sizeBytes) (state.live now) ≤ policy.maxBytes := by
  refine ⟨(TreeMap.size_filter_le_size).trans hbounded.entries, ?_⟩
  refine (total_filter_le _ _ _).trans ?_
  have hheld := hbounded.bytes
  rw [hbounded.exact] at hheld
  exact hheld

theorem bounded_lookup (hword : policy.maxBytes < wordCount) (hbounded : Bounded policy state)
    (env : Environment) (key : IdempotencyKey) (digest : List UInt8) (limits : RuntimeLimits)
    (now : ℕ) : Bounded policy (state.lookup env key digest limits now).2 := by
  have hcount := recount_eq hword hbounded now
  obtain ⟨hsize, hbytes⟩ := bounded_live hbounded now
  rcases lookup_cases env state key digest limits now with ⟨-, hstate⟩ | ⟨found, hfound, -, hstate⟩
  · rw [hstate]
    refine ⟨hcount, hsize, ?_⟩
    simp only []
    rw [hcount]
    exact hbytes
  · rw [hstate]
    -- The entry that is used keeps its size, so neither total changes.
    have hsame := total_insert_old (fun _ (entry : IdempotencyEntry) => entry.sizeBytes) hfound
      { found with lastUsed := saturatingAdd state.sequence 1 }
    have hone := total_insert_old (fun _ _ => 1) hfound
      { found with lastUsed := saturatingAdd state.sequence 1 }
    rw [total_one_eq_size, total_one_eq_size] at hone
    refine ⟨?_, ?_, ?_⟩
    · unfold held
      simp only [] at hsame ⊢
      omega
    · simp only []
      omega
    · simp only []
      rw [hcount]
      exact hbytes

end IdempotencyState

/-! ## Runs -/

section Runs

variable (env : Environment) (policy : IdempotencyPolicy)

inductive Call where
  | decide (metadata : ArtifactMetadata) (request : HttpRequest) (limits : RuntimeLimits) (now : ℕ)
  | complete (token : Option IdempotencyToken) (response : HttpResponse) (now : ℕ)

inductive Reply where
  | decided (decision : Except RuntimeError IdempotencyDecision)
  | completed (result : Except RuntimeError Unit)

def step (state : IdempotencyState) : Call → Reply × IdempotencyState
  | .decide metadata request limits now =>
      let (decision, next) := idempotencyDecision env policy state metadata request limits now
      (.decided decision, next)
  | .complete token response now =>
      let (result, next) := completeIdempotency env policy state token response now
      (.completed result, next)

/-- A response that was stored: the key and the digest of its request, and when. -/
structure Completion where
  key : IdempotencyKey
  digest : List UInt8
  response : HttpResponse
  completedAt : ℕ

/-- The completion that a call stores, unless it is not worth storing. -/
def storedBy : Call → Option Completion
  | .decide _ _ _ _ => none
  | .complete none _ _ => none
  | .complete (some token) response now =>
      if policy.maxEntries = 0 ∨ policy.maxBytes = 0 then none
      else
        match cachedResponseSize env response with
        | none => none
        | some size =>
            if size > policy.maxBytes then none
            else some { key := token.key, digest := token.digest, response, completedAt := now }

/-- The most recent completion that was stored for a key. -/
def LastStored (past : List (Call × Reply)) (completion : Completion) : Prop :=
  History.Since (fun event => storedBy env policy event.1 = some completion)
    (fun event => ∀ other, storedBy env policy event.1 = some other → other.key ≠ completion.key)
    past

/-- Every entry holds the most recent completion that was stored for its key. -/
def Faithful (past : List (Call × Reply)) (state : IdempotencyState) : Prop :=
  ∀ (key : IdempotencyKey) entry, state.entries[key]? = some entry →
    ∃ completion, LastStored env policy past completion ∧ completion.key = key ∧
      completion.digest = entry.digest ∧ completion.response = entry.response ∧
      entry.expires = completion.completedAt + policy.ttl.nanos

end Runs

section Protocol

variable {env : Environment} {policy : IdempotencyPolicy} {state : IdempotencyState}
  {past : List (Call × Reply)}

/-- A decision looks the key of the request up, or has nothing to do with the state. -/
theorem idempotencyDecision_cases (env : Environment) (policy : IdempotencyPolicy)
    (state : IdempotencyState) (metadata : ArtifactMetadata) (request : HttpRequest)
    (limits : RuntimeLimits) (now : ℕ) :
    ((idempotencyDecision env policy state metadata request limits now).2 = state ∧
      ∀ response, (idempotencyDecision env policy state metadata request limits now).1 ≠
        .ok (.replay response)) ∨
    ∃ header, request.headers.filter HttpHeader.isIdempotencyKey = [header] ∧
      idempotencyDecision env policy state metadata request limits now =
        state.lookup env (artifactIdentity env metadata, header.value.text)
          (requestDigest env.hash request) limits now := by
  unfold idempotencyDecision
  by_cases hsafe : ["GET", "HEAD", "OPTIONS", "TRACE"].contains request.method.text = true
  · rw [if_pos hsafe]
    exact Or.inl ⟨rfl, by simp⟩
  · rw [if_neg hsafe]
    cases hkeys : request.headers.filter HttpHeader.isIdempotencyKey with
    | nil => exact Or.inl ⟨rfl, by simp⟩
    | cons header more =>
      simp only []
      by_cases hmore : more ≠ []
      · rw [if_pos hmore]
        exact Or.inl ⟨rfl, by simp⟩
      · rw [if_neg hmore]
        rw [ne_eq, not_not] at hmore
        cases hkey : validIdempotencyKey header.value policy.maxKeyBytes with
        | false => exact Or.inl ⟨rfl, by simp⟩
        | true => exact Or.inr ⟨header, by rw [hmore], rfl⟩

/-- A completion is stored, or it changes nothing. -/
theorem completeIdempotency_cases (env : Environment) (policy : IdempotencyPolicy)
    (state : IdempotencyState) (token : Option IdempotencyToken) (response : HttpResponse)
    (now : ℕ) :
    (completeIdempotency env policy state token response now = (.ok (), state) ∧
      storedBy env policy (.complete token response now) = none) ∨
    ∃ own size, token = some own ∧ size ≤ policy.maxBytes ∧
      completeIdempotency env policy state token response now =
        state.store policy own response size now ∧
      storedBy env policy (.complete token response now) =
        some { key := own.key, digest := own.digest, response, completedAt := now } := by
  cases token with
  | none => exact Or.inl ⟨rfl, rfl⟩
  | some own =>
    unfold completeIdempotency storedBy
    by_cases hoff : policy.maxEntries = 0 ∨ policy.maxBytes = 0
    · simp only [if_pos hoff]
      exact Or.inl ⟨trivial, trivial⟩
    · simp only [if_neg hoff]
      cases hsize : cachedResponseSize env response with
      | none => exact Or.inl ⟨rfl, rfl⟩
      | some size =>
        simp only []
        by_cases hlarge : size > policy.maxBytes
        · simp only [if_pos hlarge]
          exact Or.inl ⟨trivial, trivial⟩
        · simp only [if_neg hlarge]
          exact Or.inr ⟨own, size, rfl, Nat.not_lt.mp hlarge, rfl, rfl⟩

/-- An entry after storing a response is the new one, or was there under another key. -/
theorem getElem?_store {token : IdempotencyToken} {response : HttpResponse} {size now : ℕ}
    {key : IdempotencyKey} {entry : IdempotencyEntry}
    (hentry : (state.store policy token response size now).2.entries[key]? = some entry) :
    (token.key = key ∧ entry.digest = token.digest ∧ entry.response = response ∧
      entry.expires = now + policy.ttl.nanos) ∨
    (token.key ≠ key ∧ state.entries[key]? = some entry) := by
  have hentries : (state.store policy token response size now).2.entries =
      ((state.remove token.key).makeRoom policy size).entries.insert token.key
        { digest := token.digest
          response
          sizeBytes := size
          expires := now + policy.ttl.nanos
          lastUsed :=
            saturatingAdd ((state.remove token.key).makeRoom policy size).sequence 1 } := by
    unfold IdempotencyState.store
    simp only []
    split <;> rfl
  rw [hentries] at hentry
  by_cases hsame : token.key = key
  · rw [hsame, getElem?_insert_self, Option.some.injEq] at hentry
    rw [← hentry]
    exact Or.inl ⟨hsame, rfl, rfl, rfl⟩
  · rw [getElem?_insert_of_ne _ hsame] at hentry
    exact Or.inr ⟨hsame,
      IdempotencyState.getElem?_remove (IdempotencyState.getElem?_makeRoom hentry)⟩

/-- What is held stays faithful as long as nothing is stored. -/
theorem Faithful.keep {next : IdempotencyState} {event : Call × Reply}
    (hfaithful : Faithful env policy past state) (hnone : storedBy env policy event.1 = none)
    (hentries : ∀ (key : IdempotencyKey) entry, next.entries[key]? = some entry →
      ∃ old, state.entries[key]? = some old ∧ entry.digest = old.digest ∧
        entry.response = old.response ∧ entry.expires = old.expires) :
    Faithful env policy (past ++ [event]) next := by
  intro key entry hentry
  obtain ⟨old, hold, hdigest, hresponse, hexpires⟩ := hentries key entry hentry
  obtain ⟨completion, hlast, hkey, hsameDigest, hsameResponse, hend⟩ := hfaithful key old hold
  refine ⟨completion, History.since_concat.mpr (Or.inr ⟨hlast, ?_⟩), hkey, ?_, ?_, ?_⟩
  · intro other hother
    rw [hnone] at hother
    cases hother
  · rw [hdigest, hsameDigest]
  · rw [hresponse, hsameResponse]
  · rw [hexpires, hend]

theorem Faithful.step (hfaithful : Faithful env policy past state) (call : Call) :
    Faithful env policy (past ++ [(call, (step env policy state call).1)])
      (step env policy state call).2 := by
  cases call with
  | decide metadata request limits now =>
    refine hfaithful.keep rfl ?_
    intro key entry hentry
    have hnext : (Krit.Policy.step env policy state (.decide metadata request limits now)).2 =
        (idempotencyDecision env policy state metadata request limits now).2 := rfl
    rw [hnext] at hentry
    rcases idempotencyDecision_cases env policy state metadata request limits now with
      ⟨hstate, -⟩ | ⟨header, -, hlookup⟩
    · rw [hstate] at hentry
      exact ⟨entry, hentry, rfl, rfl, rfl⟩
    · rw [hlookup] at hentry
      exact IdempotencyState.getElem?_lookup hentry
  | complete token response now =>
    have hnext : (Krit.Policy.step env policy state (.complete token response now)).2 =
        (completeIdempotency env policy state token response now).2 := rfl
    rcases completeIdempotency_cases env policy state token response now with
      ⟨hstate, hnone⟩ | ⟨own, size, -, -, hstate, hstored⟩
    · refine hfaithful.keep hnone ?_
      intro key entry hentry
      rw [hnext, hstate] at hentry
      exact ⟨entry, hentry, rfl, rfl, rfl⟩
    · intro key entry hentry
      rw [hnext, hstate] at hentry
      rcases getElem?_store hentry with ⟨hkey, hdigest, hresponse, hexpires⟩ | ⟨hother, hold⟩
      · exact ⟨_, History.since_concat.mpr (Or.inl hstored), hkey, hdigest.symm, hresponse.symm,
          hexpires⟩
      · obtain ⟨completion, hlast, hkey, hrest⟩ := hfaithful key entry hold
        refine ⟨completion, History.since_concat.mpr (Or.inr ⟨hlast, ?_⟩), hkey, hrest⟩
        intro other hsame
        simp only [hstored, Option.some.injEq] at hsame
        rw [← hsame, hkey]
        exact hother

variable (env) in
theorem bounded_step (hentries : 0 < policy.maxEntries) (hword : policy.maxBytes < wordCount)
    (hbounded : IdempotencyState.Bounded policy state) (call : Call) :
    IdempotencyState.Bounded policy (step env policy state call).2 ∧
      ∀ result, (step env policy state call).1 = .completed result → result = .ok () := by
  cases call with
  | decide metadata request limits now =>
    refine ⟨?_, fun result hresult => by cases hresult⟩
    change IdempotencyState.Bounded policy
      (idempotencyDecision env policy state metadata request limits now).2
    rcases idempotencyDecision_cases env policy state metadata request limits now with
      ⟨hstate, -⟩ | ⟨header, -, hlookup⟩
    · rw [hstate]
      exact hbounded
    · rw [hlookup]
      exact IdempotencyState.bounded_lookup hword hbounded _ _ _ _ _
  | complete token response now =>
    change IdempotencyState.Bounded policy
      (completeIdempotency env policy state token response now).2 ∧
        ∀ result, Reply.completed (completeIdempotency env policy state token response now).1 =
          .completed result → result = .ok ()
    rcases completeIdempotency_cases env policy state token response now with
      ⟨hstate, -⟩ | ⟨own, size, -, hsize, hstate, -⟩
    · rw [hstate]
      refine ⟨hbounded, ?_⟩
      intro result hresult
      cases hresult
      rfl
    · obtain ⟨hresult, hstored⟩ := IdempotencyState.bounded_store hentries hword hsize
        hbounded.exact own response now
      rw [hstate]
      refine ⟨hstored, ?_⟩
      intro result hsame
      rw [hresult] at hsame
      cases hsame
      rfl

/-- Over every sequence of decisions and completions, at whatever instants, the cache counts
its bytes exactly and keeps its bounds, no completion fails, and a decision replays the
response of the most recent completion stored for its artifact and key, under the digest
of that completion and before it expires. -/
theorem idempotency_cache_bounded_and_exact (env : Environment) (policy : IdempotencyPolicy)
    (hvalid : policy.validate = .ok ()) (hentries : 0 < policy.maxEntries) (calls : List Call) :
    IdempotencyState.Bounded policy
      (History.run (step env policy) IdempotencyState.empty calls) ∧
    (∀ call result, (call, Reply.completed result) ∈
      History.history (step env policy) IdempotencyState.empty calls → result = .ok ()) ∧
    ∀ metadata request limits now response,
      (idempotencyDecision env policy
        (History.run (step env policy) IdempotencyState.empty calls) metadata request limits
          now).1 = .ok (.replay response) →
      ∃ header completion, request.headers.filter HttpHeader.isIdempotencyKey = [header] ∧
        LastStored env policy (History.history (step env policy) IdempotencyState.empty calls)
          completion ∧
        completion.key = (artifactIdentity env metadata, header.value.text) ∧
        completion.response = response ∧
        completion.digest = requestDigest env.hash request ∧
        now < completion.completedAt + policy.ttl.nanos := by
  have hword : policy.maxBytes < wordCount := by
    unfold IdempotencyPolicy.validate at hvalid
    split at hvalid
    · cases hvalid
    · rename_i hinside
      have hmax : policy.maxBytes ≤ maxIdempotencyBytes := by omega
      exact hmax.trans_lt (by decide)
  have hstart : Faithful env policy [] IdempotencyState.empty := by
    intro key entry hentry
    rw [IdempotencyState.empty, TreeMap.getElem?_emptyc] at hentry
    cases hentry
  obtain ⟨hfaithful, hbounded, hcompleted⟩ := History.invariant (step env policy)
    (motive := fun (past : List (Call × Reply)) (state : IdempotencyState) =>
      Faithful env policy past state ∧ IdempotencyState.Bounded policy state ∧
        ∀ call result, (call, Reply.completed result) ∈ past → result = .ok ())
    ⟨hstart, IdempotencyState.bounded_empty policy, by simp⟩
    (by
      rintro past state call ⟨hfaithful, hbounded, hcompleted⟩
      obtain ⟨hnext, hresult⟩ := bounded_step env hentries hword hbounded call
      refine ⟨hfaithful.step call, hnext, ?_⟩
      intro other result hmem
      rcases List.mem_append.mp hmem with hold | hlast
      · exact hcompleted other result hold
      · rw [List.mem_singleton, Prod.mk.injEq] at hlast
        exact hresult result hlast.2.symm)
    calls
  refine ⟨hbounded, hcompleted, ?_⟩
  intro metadata request limits now response hreplay
  rcases idempotencyDecision_cases env policy
      (History.run (step env policy) IdempotencyState.empty calls) metadata request limits now with
    ⟨-, hother⟩ | ⟨header, hheader, hlookup⟩
  · exact absurd hreplay (hother response)
  · rw [hlookup] at hreplay
    rcases IdempotencyState.lookup_cases env
        (History.run (step env policy) IdempotencyState.empty calls)
        (artifactIdentity env metadata, header.value.text) (requestDigest env.hash request) limits
        now with
      ⟨hmiss, -⟩ | ⟨entry, hentry, hfound, -⟩
    · rw [hmiss] at hreplay
      cases hreplay
    · obtain ⟨hresponse, hdigest⟩ := hfound response hreplay
      obtain ⟨hstored, hlive⟩ := IdempotencyState.getElem?_live.mp hentry
      obtain ⟨completion, hlast, hkey, hsameDigest, hsameResponse, hend⟩ :=
        hfaithful _ entry hstored
      refine ⟨header, completion, hheader, hlast, hkey, ?_, ?_, ?_⟩
      · rw [hsameResponse, hresponse]
      · rw [hsameDigest, hdigest]
      · rw [← hend]
        exact hlive

end Protocol

/-- A host whose hash keeps the bytes, for examples. -/
def sampleEnvironment : Environment :=
  { hash := id
    headerName := fun name => some name.text.toLower
    headerValueAccepted := fun _ => true
    responseSize := 56
    headerSize := 48 }

def samplePolicy : IdempotencyPolicy :=
  { maxEntries := 1
    maxBytes := 100
    ttl := .fromSecs 1
    maxKeyBytes := 16 }

def sampleMetadata : ArtifactMetadata :=
  { packageName := ⟨"app", by decide⟩
    packageVersion := ⟨"1.0.0", by decide⟩
    world := ⟨"webhook", by decide⟩
    digest := ⟨"00", by decide⟩ }

def sampleRequest : HttpRequest :=
  { method := ⟨"POST", by decide⟩
    path := ⟨"/", by decide⟩
    query := ⟨"", by decide⟩
    headers := [⟨⟨"Idempotency-Key", by decide⟩, ⟨"k1", by decide⟩⟩]
    body := ⟨"hello", by decide⟩ }

def sampleResponse : HttpResponse := { status := 200, headers := [], body := ⟨"ok", by decide⟩ }

def sampleCalls : List Call :=
  [.decide sampleMetadata sampleRequest ⟨8, 256, 64⟩ 0,
    .complete
      (some
        { key := (artifactIdentity sampleEnvironment sampleMetadata, "k1")
          digest := requestDigest sampleEnvironment.hash sampleRequest })
      sampleResponse 10]

theorem idempotency_cache_bounded_and_exact_sample :
    IdempotencyState.Bounded samplePolicy
      (History.run (step sampleEnvironment samplePolicy) IdempotencyState.empty sampleCalls) ∧
    ∃ completion, LastStored sampleEnvironment samplePolicy
        (History.history (step sampleEnvironment samplePolicy) IdempotencyState.empty sampleCalls)
        completion ∧
      completion.response = sampleResponse := by
  have hproved := idempotency_cache_bounded_and_exact sampleEnvironment samplePolicy (by decide)
    (by decide) sampleCalls
  have hreplay : (idempotencyDecision sampleEnvironment samplePolicy
      (History.run (step sampleEnvironment samplePolicy) IdempotencyState.empty sampleCalls)
      sampleMetadata sampleRequest ⟨8, 256, 64⟩ 20).1 = .ok (.replay sampleResponse) := by
    decide +kernel
  obtain ⟨header, completion, -, hlast, -, hresponse, -⟩ :=
    hproved.2.2 sampleMetadata sampleRequest ⟨8, 256, 64⟩ 20 sampleResponse hreplay
  exact ⟨hproved.1, completion, hlast, hresponse⟩

end Krit.Policy
