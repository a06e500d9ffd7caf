import Krit.HttpOrigin
import Krit.Lib.IpAddress
import Krit.Lib.Result
import Mathlib.Data.List.Sort
import Mathlib.Data.List.Dedup

/-!
# The policy of outbound connections

Before a host connects to an origin it resolves the origin's name and looks at every
address.  The policy refuses an address that is not public; a policy for tests also
permits loopback addresses.
-/

namespace Krit.Network

open Net

attribute [local instance] octet_neZero segment_neZero

structure NetworkPolicy where
  allowLoopback : Bool
  allowPlaintextBearer : Bool
  allowPlaintextOrigin : Bool
  deriving DecidableEq, Repr

namespace NetworkPolicy

def default : NetworkPolicy := ⟨false, false, false⟩

def loopbackForTests : NetworkPolicy := ⟨true, false, true⟩

def permitsV4 (policy : NetworkPolicy) (address : Ipv4Addr) : Bool :=
  if address.isUnspecified || address.isBroadcast || address.isMulticast || address.isPrivate ||
      address.isLinkLocal || address.first == 0 ||
      (address.first == 100 && address.second.val &&& 0xc0 == 64) ||
      (address.first == 192 && address.second == 0 && address.third == 0) ||
      (address.first == 192 && address.second == 0 && address.third == 2) ||
      (address.first == 192 && address.second == 88 && address.third == 99) ||
      (address.first == 198 && (address.second == 18 || address.second == 19)) ||
      (address.first == 198 && address.second == 51 && address.third == 100) ||
      (address.first == 203 && address.second == 0 && address.third == 113) ||
      240 ≤ address.first then false
  else !address.isLoopback || policy.allowLoopback

def permitsV6 (policy : NetworkPolicy) (address : Ipv6Addr) : Bool :=
  match address.toIpv4 with
  | some mapped => policy.permitsV4 mapped
  | none =>
      if address.isUnspecified || address.isMulticast || address.isUniqueLocal ||
          address.isUnicastLinkLocal then false
      else if address.isLoopback then policy.allowLoopback
      else
        let globallyAllocated := address.s0.val &&& 0xe000 == 0x2000
        let documentation := address.s0 == 0x2001 && address.s1 == 0x0db8
        let benchmarking := address.s0 == 0x2001 && address.s1 == 0x0002
        let teredo := address.s0 == 0x2001 && address.s1 == 0
        let sixToFour := address.s0 == 0x2002
        let extendedDocumentation := address.s0 == 0x3fff && address.s1.val &&& 0xf000 == 0
        let orchid := address.s0 == 0x2001 &&
          (address.s1.val &&& 0xfff0 == 0x0010 || address.s1.val &&& 0xfff0 == 0x0020)
        globallyAllocated && !documentation && !benchmarking && !teredo && !sixToFour &&
          !extendedDocumentation && !orchid

def permitsAddress (policy : NetworkPolicy) : IpAddr → Bool
  | .v4 address => policy.permitsV4 address
  | .v6 address => policy.permitsV6 address

end NetworkPolicy

/-! ## Resolution -/

/-- An address with a port; one of version 6 has a flow and a scope. -/
inductive SocketAddr where
  | v4 (address : Ipv4Addr) (port : ℕ)
  | v6 (address : Ipv6Addr) (port flowinfo scopeId : ℕ)
  deriving DecidableEq, Repr

namespace SocketAddr

def new : IpAddr → ℕ → SocketAddr
  | .v4 address, port => .v4 address port
  | .v6 address, port => .v6 address port 0 0

def ip : SocketAddr → IpAddr
  | .v4 address _ => .v4 address
  | .v6 address _ _ _ => .v6 address

def port : SocketAddr → ℕ
  | .v4 _ port => port
  | .v6 _ port _ _ => port

/-- What the order of addresses compares, one number after the other. -/
def key : SocketAddr → List ℕ
  | .v4 address port => [0, address.value, port]
  | .v6 address port flowinfo scopeId => [1, address.value, port, flowinfo, scopeId]

end SocketAddr

inductive NetworkFailureKind where
  | cancelled
  | deadline
  | retryable
  | fatal
  deriving DecidableEq, Repr

structure NetworkFailure where
  kind : NetworkFailureKind
  message : String
  deriving DecidableEq, Repr

def maxDnsWorkers : ℕ := 16

/-- What the wait for the worker of a resolution receives. -/
inductive Received where
  | timeout
  | disconnected
  | resolved (addresses : Option (List SocketAddr))

/-- One turn of the wait: the cancellation, the clock and the channel. -/
structure Turn where
  cancelled : Bool
  now : ℕ
  received : Received

/-- The surroundings of a resolution: the workers that run already, whether a thread
starts, the resolver of the system, the turns of the wait before the clock passes every
deadline, and whether the worker ended well. -/
structure Surroundings where
  activeWorkers : ℕ
  spawns : Bool
  turns : List Turn
  joins : Bool

/-- The worker hands over the first addresses that the system's resolver returns. -/
def worker (addresses : Option (List SocketAddr)) : Option (List SocketAddr) :=
  addresses.map fun addresses => addresses.take 16

def timedOut : NetworkFailure := ⟨.retryable, "outbound HTTP DNS resolution timed out"⟩

def awaitWorker (resolutionDeadline deadline : ℕ) :
    List Turn → Except NetworkFailure (Option (List SocketAddr))
  | [] => .error timedOut
  | turn :: turns =>
      if turn.cancelled then
        .error ⟨.cancelled, "outbound HTTP DNS resolution was cancelled"⟩
      else if resolutionDeadline ≤ turn.now ∨ deadline ≤ turn.now then .error timedOut
      else
        match turn.received with
        | .resolved addresses => .ok (worker addresses)
        | .timeout => awaitWorker resolutionDeadline deadline turns
        | .disconnected =>
            .error ⟨.fatal, "outbound HTTP DNS resolver stopped unexpectedly"⟩

/-- The host of an origin without the brackets of an address of version 6. -/
def unbracketed (host : String) : String :=
  match host.toList with
  | '[' :: rest => if rest.getLast? = some ']' then String.ofList rest.dropLast else host
  | _ => host

/-- The address that an origin spells, read by the parser of addresses. -/
def ipAddress (parseAddress : String → Option IpAddr) (origin : HttpOrigin) : Option IpAddr :=
  parseAddress (unbracketed origin.host)

/-- The addresses of an origin: the one it spells, or those that its worker hands over. -/
def lookupAddresses (parseAddress : String → Option IpAddr) (origin : HttpOrigin)
    (resolutionDeadline deadline : ℕ) (surroundings : Surroundings) :
    Except NetworkFailure (List SocketAddr) :=
  match ipAddress parseAddress origin with
  | some address => .ok [SocketAddr.new address origin.port]
  | none =>
      if maxDnsWorkers ≤ surroundings.activeWorkers then
        .error ⟨.fatal, "bounded DNS worker limit exceeded"⟩
      else if !surroundings.spawns then
        .error ⟨.fatal, "could not start bounded DNS resolver"⟩
      else do
        let resolved ← awaitWorker resolutionDeadline deadline surroundings.turns
        if !surroundings.joins then
          .error ⟨.fatal, "outbound HTTP DNS resolver panicked"⟩
        else
          match resolved with
          | some addresses => .ok addresses
          | none => .error ⟨.retryable, "outbound HTTP DNS resolution failed"⟩

def redactedAddressClass : IpAddr → String
  | .v4 address =>
      if address.isLoopback then "loopback"
      else if address.isLinkLocal then "link-local"
      else if address.isPrivate then "private"
      else "non-public"
  | .v6 address =>
      if address.isLoopback then "loopback"
      else if address.isUnicastLinkLocal then "link-local"
      else if address.isUniqueLocal then "private"
      else "non-public"

/-- The loop over the addresses, with those it has admitted so far. -/
def admitAddresses (policy : NetworkPolicy) (port : ℕ) (unique : List SocketAddr) :
    List SocketAddr → Except NetworkFailure (List SocketAddr)
  | [] => .ok unique
  | address :: addresses =>
      if address.port ≠ port ∨ policy.permitsAddress address.ip = false then
        .error ⟨.fatal, "outbound HTTP address " ++ String.singleton (Char.ofNat 96) ++
          redactedAddressClass address.ip ++ String.singleton (Char.ofNat 96) ++
          " is denied by host network policy"⟩
      else if address ∈ unique then admitAddresses policy port unique addresses
      else admitAddresses policy port (unique ++ [address]) addresses

def resolveAddresses (parseAddress : String → Option IpAddr) (origin : HttpOrigin)
    (policy : NetworkPolicy) (resolutionDeadline deadline : ℕ) (surroundings : Surroundings) :
    Except NetworkFailure (List SocketAddr) := do
  let addresses ←
    lookupAddresses parseAddress origin resolutionDeadline deadline surroundings
  if addresses.isEmpty then
    .error ⟨.retryable, "outbound HTTP DNS resolution returned no addresses"⟩
  else
    let unique ← admitAddresses policy origin.port [] addresses
    .ok (unique.mergeSort fun first second => decide (first.key ≤ second.key))

/-! ## Addresses that are not public -/

def loopbackBlock : Net.Block := Ipv4Addr.block ⟨127, 0, 0, 0⟩ 8

/-- The private, shared, link-local, documentation, benchmarking, multicast and reserved
blocks; the unspecified address is in the first of them and the broadcast address in the
last. -/
def reservedBlocks : List Net.Block :=
  [Ipv4Addr.block ⟨0, 0, 0, 0⟩ 8, Ipv4Addr.block ⟨10, 0, 0, 0⟩ 8,
    Ipv4Addr.block ⟨100, 64, 0, 0⟩ 10, Ipv4Addr.block ⟨169, 254, 0, 0⟩ 16,
    Ipv4Addr.block ⟨172, 16, 0, 0⟩ 12, Ipv4Addr.block ⟨192, 0, 0, 0⟩ 24,
    Ipv4Addr.block ⟨192, 0, 2, 0⟩ 24, Ipv4Addr.block ⟨192, 88, 99, 0⟩ 24,
    Ipv4Addr.block ⟨192, 168, 0, 0⟩ 16, Ipv4Addr.block ⟨198, 18, 0, 0⟩ 15,
    Ipv4Addr.block ⟨198, 51, 100, 0⟩ 24, Ipv4Addr.block ⟨203, 0, 113, 0⟩ 24,
    Ipv4Addr.block ⟨224, 0, 0, 0⟩ 4, Ipv4Addr.block ⟨240, 0, 0, 0⟩ 4]

/-- The loopback and unspecified addresses, and the link-local, unique-local, multicast and
documentation blocks. -/
def reservedBlocksV6 : List Net.Block :=
  [Ipv6Addr.block ⟨0, 0, 0, 0, 0, 0, 0, 0⟩ 128, Ipv6Addr.block .localhost 128,
    Ipv6Addr.block ⟨0xfe80, 0, 0, 0, 0, 0, 0, 0⟩ 10,
    Ipv6Addr.block ⟨0xfc00, 0, 0, 0, 0, 0, 0, 0⟩ 7,
    Ipv6Addr.block ⟨0xff00, 0, 0, 0, 0, 0, 0, 0⟩ 8,
    Ipv6Addr.block ⟨0x2001, 0x0db8, 0, 0, 0, 0, 0, 0⟩ 32,
    Ipv6Addr.block ⟨0x3fff, 0, 0, 0, 0, 0, 0, 0⟩ 20]

def Ipv4Public (address : Ipv4Addr) : Prop :=
  ¬ loopbackBlock.Contains address.value ∧ ∀ block ∈ reservedBlocks, ¬ block.Contains address.value

/-- No address of a reserved block, and none that carries an address of such a block. -/
def Public : IpAddr → Prop
  | .v4 address => Ipv4Public address
  | .v6 address => (∀ block ∈ reservedBlocksV6, ¬ block.Contains address.value) ∧
      ∀ inner, address.Embeds inner → Ipv4Public inner

/-- The loopback block of version 4, in either version, and the loopback address of
version 6. -/
def Loopback : IpAddr → Prop
  | .v4 address => loopbackBlock.Contains address.value
  | .v6 address => address = .localhost ∨
      ∃ inner, address.IsForm inner ∧ loopbackBlock.Contains inner.value

namespace NetworkPolicy

variable (policy : NetworkPolicy)

theorem mask_second (address : Ipv4Addr) :
    address.second.val &&& 0xc0 = address.second.val / 2 ^ 6 * 2 ^ 6 :=
  @mask_eq 8 6 _ address.second.isLt

theorem loopbackBlock_contains (address : Ipv4Addr) :
    loopbackBlock.Contains address.value ↔ address.isLoopback = true := by
  have hblock := @Ipv4Addr.contains_first address ⟨127, 0, 0, 0⟩ 0 (by decide)
  rw [Nat.pow_zero, Nat.div_one, Nat.div_one] at hblock
  unfold loopbackBlock Ipv4Addr.isLoopback
  rw [beq_iff_eq, Fin.ext_iff]
  exact hblock

/-- The tests of the policy are those of the reserved blocks. -/
theorem permitsV4_iff (address : Ipv4Addr) :
    policy.permitsV4 address = true ↔
      (∀ block ∈ reservedBlocks, ¬ block.Contains address.value) ∧
        (¬ loopbackBlock.Contains address.value ∨ policy.allowLoopback = true) := by
  have h0 := @Ipv4Addr.contains_first address ⟨0, 0, 0, 0⟩ 0 (by decide)
  have h10 := @Ipv4Addr.contains_first address ⟨10, 0, 0, 0⟩ 0 (by decide)
  have h224 := @Ipv4Addr.contains_first address ⟨224, 0, 0, 0⟩ 4 (by decide)
  have h240 := @Ipv4Addr.contains_first address ⟨240, 0, 0, 0⟩ 4 (by decide)
  have h100 := @Ipv4Addr.contains_second address ⟨100, 64, 0, 0⟩ 6 (by decide)
  have h169 := @Ipv4Addr.contains_second address ⟨169, 254, 0, 0⟩ 0 (by decide)
  have h172 := @Ipv4Addr.contains_second address ⟨172, 16, 0, 0⟩ 4 (by decide)
  have h192 := @Ipv4Addr.contains_second address ⟨192, 168, 0, 0⟩ 0 (by decide)
  have h198 := @Ipv4Addr.contains_second address ⟨198, 18, 0, 0⟩ 1 (by decide)
  have hmask := mask_second address
  norm_num at h0 h10 h224 h240 h100 h169 h172 h192 h198 hmask
  unfold permitsV4 reservedBlocks
  simp only [List.forall_mem_cons, List.not_mem_nil, false_implies, implies_true, and_true,
    loopbackBlock_contains, Ipv4Addr.contains_third, h0, h10, h224, h240, h100, h169, h172, h192,
    h198, hmask]
  clear h0 h10 h224 h240 h100 h169 h172 h192 h198 hmask
  obtain ⟨first, second, third, fourth⟩ := address
  rw [Bool.if_false_left, Bool.and_eq_true]
  refine and_congr ?_ ?_
  · have h100 : second.val / 64 * 64 = 64 ↔ second.val / 64 = 1 := by omega
    have h172 : 16 ≤ second.val ∧ second.val ≤ 31 ↔ second.val / 16 = 1 := by omega
    have h198 : second.val = 18 ∨ second.val = 19 ↔ second.val / 2 = 9 := by omega
    have h224 : 224 ≤ first.val ∧ first.val ≤ 239 ↔ first.val / 16 = 14 := by omega
    have h240 : 240 ≤ first.val ↔ first.val / 16 = 15 := by omega
    have h255 : first.val = 255 → first.val / 16 = 15 := by omega
    simp only [Ipv4Addr.isUnspecified, Ipv4Addr.isBroadcast, Ipv4Addr.isMulticast,
      Ipv4Addr.isPrivate, Ipv4Addr.isLinkLocal, Bool.not_eq_true', ← Bool.not_eq_true,
      Bool.or_eq_true, Bool.and_eq_true, beq_iff_eq, decide_eq_true_eq,
      Ipv4Addr.mk.injEq, Fin.ext_iff, Fin.le_def, Fin.coe_ofNat_eq_mod, Nat.reduceMod, not_or,
      and_assoc, h100, h172, h198, h224, h240]
    constructor
    · rintro ⟨-, -, hmulticast, hten, hprivate, hlocal, hlink, hzero, hshared, hprotocol, htest,
        hrelay, hbenchmark, hsecond, hthird, hreserved⟩
      exact ⟨hzero, hten, hshared, hlink, hprivate, hprotocol, htest, hrelay, hlocal, hbenchmark,
        hsecond, hthird, hmulticast, hreserved⟩
    · rintro ⟨hzero, hten, hshared, hlink, hprivate, hprotocol, htest, hrelay, hlocal, hbenchmark,
        hsecond, hthird, hmulticast, hreserved⟩
      exact ⟨fun h => hzero h.1, fun h => hreserved (h255 h.1), hmulticast, hten, hprivate, hlocal,
        hlink, hzero, hshared, hprotocol, htest, hrelay, hbenchmark, hsecond, hthird, hreserved⟩
  · simp [Ipv4Addr.isLoopback]

/-- No loopback address is in a reserved block. -/
theorem not_reserved_of_loopback {address : Ipv4Addr}
    (hloopback : loopbackBlock.Contains address.value) :
    ∀ block ∈ reservedBlocks, ¬ block.Contains address.value := by
  rw [loopbackBlock_contains, Ipv4Addr.isLoopback, beq_iff_eq] at hloopback
  have hpermits : loopbackForTests.permitsV4 address = true := by
    obtain ⟨first, second, third, fourth⟩ := address
    dsimp only at hloopback
    subst hloopback
    simp [permitsV4, Ipv4Addr.isUnspecified, Ipv4Addr.isBroadcast, Ipv4Addr.isMulticast,
      Ipv4Addr.isPrivate, Ipv4Addr.isLinkLocal, loopbackForTests]
  exact ((permitsV4_iff _ address).mp hpermits).1

theorem default_permitsV4_iff (address : Ipv4Addr) :
    default.permitsV4 address = true ↔ Ipv4Public address := by
  rw [permitsV4_iff, and_comm, Ipv4Public]
  simp [default]

theorem loopback_permitsV4_iff (address : Ipv4Addr) :
    loopbackForTests.permitsV4 address = true ↔
      default.permitsV4 address = true ∨ loopbackBlock.Contains address.value := by
  rw [permitsV4_iff, default_permitsV4_iff, Ipv4Public]
  by_cases hloopback : loopbackBlock.Contains address.value
  · exact iff_of_true ⟨not_reserved_of_loopback hloopback, Or.inr rfl⟩ (Or.inr hloopback)
  · simp [hloopback]

/-! ## Version 6 -/

theorem mask_global (address : Ipv6Addr) :
    address.s0.val &&& 0xe000 = address.s0.val / 2 ^ 13 * 2 ^ 13 :=
  @mask_eq 16 13 _ address.s0.isLt

theorem mask_documentation (address : Ipv6Addr) :
    address.s1.val &&& 0xf000 = address.s1.val / 2 ^ 12 * 2 ^ 12 :=
  @mask_eq 16 12 _ address.s1.isLt

theorem isLoopback_of_none {address : Ipv6Addr} (hnone : address.toIpv4 = none) :
    address.isLoopback = false := by
  rw [Ipv6Addr.isLoopback, beq_eq_false_iff_ne]
  rintro rfl
  cases hnone

/-- What the policy permits of the addresses that carry none of version 4. -/
structure GloballyAllocated (address : Ipv6Addr) : Prop where
  specified : address.isUnspecified = false
  unicast : address.isMulticast = false
  not_local : address.isUniqueLocal = false
  not_link : address.isUnicastLinkLocal = false
  allocated : address.s0.val / 2 ^ 13 = 1
  documentation : ¬ (address.s0 = 0x2001 ∧ address.s1 = 0x0db8)
  teredo : ¬ (address.s0 = 0x2001 ∧ address.s1 = 0)
  sixToFour : address.s0 ≠ 0x2002
  extendedDocumentation : ¬ (address.s0 = 0x3fff ∧ address.s1.val / 2 ^ 12 = 0)

theorem globallyAllocated_of_permits {address : Ipv6Addr} (hnone : address.toIpv4 = none)
    (hpermits : policy.permitsV6 address = true) : GloballyAllocated address := by
  unfold permitsV6 at hpermits
  simp only [hnone, isLoopback_of_none hnone, mask_global, mask_documentation] at hpermits
  rw [Bool.if_false_left, Bool.and_eq_true] at hpermits
  obtain ⟨hspecial, hglobal⟩ := hpermits
  simp only [Bool.decide_eq_true, Bool.not_eq_true', Bool.or_eq_false_iff] at hspecial
  obtain ⟨⟨⟨hspecified, hunicast⟩, hlocal⟩, hlink⟩ := hspecial
  simp only [Bool.false_eq_true, if_false, Bool.and_eq_true, Bool.not_eq_true',
    Bool.and_eq_false_iff,
    beq_eq_false_iff_ne, beq_iff_eq, ← not_and_or] at hglobal
  obtain ⟨⟨⟨⟨⟨⟨hallocated, hdocumentation⟩, -⟩, hteredo⟩, hsixToFour⟩, hextended⟩, -⟩ := hglobal
  exact ⟨hspecified, hunicast, hlocal, hlink, by omega, hdocumentation, hteredo, hsixToFour,
    fun h => hextended ⟨h.1, by rw [h.2, Nat.zero_mul]⟩⟩

/-! ## The policies -/

/-- The reserved blocks of version 6 by the segments of their addresses. -/
theorem reservedV6_iff (address : Ipv6Addr) :
    (∀ block ∈ reservedBlocksV6, ¬ block.Contains address.value) ↔
      address ≠ ⟨0, 0, 0, 0, 0, 0, 0, 0⟩ ∧ address ≠ .localhost ∧
      address.s0.val / 2 ^ 6 ≠ 0xfe80 / 2 ^ 6 ∧ address.s0.val / 2 ^ 9 ≠ 0xfc00 / 2 ^ 9 ∧
      address.s0.val / 2 ^ 8 ≠ 0xff00 / 2 ^ 8 ∧ ¬ (address.s0 = 0x2001 ∧ address.s1 = 0x0db8) ∧
      ¬ (address.s0 = 0x3fff ∧ address.s1.val / 2 ^ 12 = 0) := by
  have hlink := @Ipv6Addr.contains_s0 address ⟨0xfe80, 0, 0, 0, 0, 0, 0, 0⟩ 6 (by decide)
  have hlocal := @Ipv6Addr.contains_s0 address ⟨0xfc00, 0, 0, 0, 0, 0, 0, 0⟩ 9 (by decide)
  have hmulticast := @Ipv6Addr.contains_s0 address ⟨0xff00, 0, 0, 0, 0, 0, 0, 0⟩ 8 (by decide)
  have hdocumentation := @Ipv6Addr.contains_s1 address ⟨0x2001, 0x0db8, 0, 0, 0, 0, 0, 0⟩ 0
    (by decide)
  have hextended := @Ipv6Addr.contains_s1 address ⟨0x3fff, 0, 0, 0, 0, 0, 0, 0⟩ 12 (by decide)
  rw [Nat.pow_zero, Nat.div_one, Nat.div_one, ← Fin.ext_iff] at hdocumentation
  unfold reservedBlocksV6
  simp only [List.forall_mem_cons, List.not_mem_nil, false_implies, implies_true, and_true,
    Ipv6Addr.contains_s7]
  exact and_congr Iff.rfl (and_congr Iff.rfl (and_congr (not_congr hlink) (and_congr
    (not_congr hlocal) (and_congr (not_congr hmulticast) (and_congr (not_congr hdocumentation)
      (not_congr hextended))))))

/-- The first segment of an address tells its form. -/
theorem embeds_cases {address : Ipv6Addr} {inner : Ipv4Addr} (hembeds : address.Embeds inner) :
    address.IsForm inner ∨ address.s0 = 0x2002 ∨ (address.s0 = 0x2001 ∧ address.s1 = 0) ∨
      address.s0 = 0x64 := by
  cases hembeds with
  | form hform => exact Or.inl hform
  | sixToFour hprefix =>
    have hcontains := (@Ipv6Addr.contains_s0 address _ 0 (by decide)).mp hprefix
    rw [Nat.pow_zero, Nat.div_one, Nat.div_one] at hcontains
    exact Or.inr (Or.inl (Fin.ext hcontains))
  | teredoServer hprefix =>
    obtain ⟨h0, h1⟩ := (@Ipv6Addr.contains_s1 address _ 0 (by decide)).mp hprefix
    rw [Nat.pow_zero, Nat.div_one, Nat.div_one] at h1
    exact Or.inr (Or.inr (Or.inl ⟨h0, Fin.ext h1⟩))
  | teredoClient hprefix =>
    obtain ⟨h0, h1⟩ := (@Ipv6Addr.contains_s1 address _ 0 (by decide)).mp hprefix
    rw [Nat.pow_zero, Nat.div_one, Nat.div_one] at h1
    exact Or.inr (Or.inr (Or.inl ⟨h0, Fin.ext h1⟩))
  | translated hprefix => exact Or.inr (Or.inr (Or.inr (Ipv6Addr.contains_s5.mp hprefix).1))

theorem s0_of_isForm {address : Ipv6Addr} {inner : Ipv4Addr} (hform : address.IsForm inner) :
    address.s0 = 0 := by
  rcases hform.2 with hprefix | hprefix
  · exact (Ipv6Addr.contains_s5.mp hprefix).1
  · exact (Ipv6Addr.contains_s5.mp hprefix).1

theorem public_of_default {address : IpAddr} (hpermits : default.permitsAddress address = true) :
    Public address := by
  cases address with
  | v4 address => exact (default_permitsV4_iff address).mp hpermits
  | v6 address =>
    change default.permitsV6 address = true at hpermits
    cases htoIpv4 : address.toIpv4 with
    | some mapped =>
      have hform := Ipv6Addr.toIpv4_eq_some_iff.mp htoIpv4
      have hs0 := s0_of_isForm hform
      have hmapped : Ipv4Public mapped := by
        unfold permitsV6 at hpermits
        rw [htoIpv4] at hpermits
        exact (default_permitsV4_iff mapped).mp hpermits
      refine ⟨(reservedV6_iff address).mpr ⟨?_, ?_, ?_, ?_, ?_, ?_, ?_⟩, fun inner hembeds => ?_⟩
      · rintro rfl
        rw [← Option.some.inj htoIpv4, ← default_permitsV4_iff] at hmapped
        revert hmapped
        decide
      · rintro rfl
        rw [← Option.some.inj htoIpv4, ← default_permitsV4_iff] at hmapped
        revert hmapped
        decide
      · rw [hs0]
        decide
      · rw [hs0]
        decide
      · rw [hs0]
        decide
      · rw [hs0]
        exact fun h => absurd h.1 (by decide)
      · rw [hs0]
        exact fun h => absurd h.1 (by decide)
      · rcases embeds_cases hembeds with hinner | h | h | h
        · have hsame := Ipv6Addr.toIpv4_eq_some_iff.mpr hinner
          rw [htoIpv4] at hsame
          rw [← Option.some.inj hsame]
          exact hmapped
        · rw [hs0] at h
          exact absurd h (by decide)
        · rw [hs0] at h
          exact absurd h.1 (by decide)
        · rw [hs0] at h
          exact absurd h (by decide)
    | none =>
      have hglobal := globallyAllocated_of_permits default htoIpv4 hpermits
      have hallocated := hglobal.allocated
      refine ⟨(reservedV6_iff address).mpr ⟨?_, ?_, by omega, by omega, by omega,
        hglobal.documentation, hglobal.extendedDocumentation⟩, fun inner hembeds => ?_⟩
      · rintro rfl
        cases htoIpv4
      · rintro rfl
        cases htoIpv4
      · rcases embeds_cases hembeds with hinner | h | h | h
        · have hsome := Ipv6Addr.toIpv4_eq_some_iff.mpr hinner
          rw [htoIpv4] at hsome
          cases hsome
        · exact absurd h hglobal.sixToFour
        · exact absurd h hglobal.teredo
        · rw [h] at hallocated
          exact absurd hallocated (by decide)

/-- The policy for tests, except at the loopback address of version 6. -/
theorem loopback_permits_iff {address : IpAddr} (haddress : address ≠ .v6 .localhost) :
    loopbackForTests.permitsAddress address = true ↔
      default.permitsAddress address = true ∨ Loopback address := by
  cases address with
  | v4 address => exact loopback_permitsV4_iff address
  | v6 address =>
    have hlocalhost : address ≠ .localhost := fun heq => haddress (congrArg IpAddr.v6 heq)
    change loopbackForTests.permitsV6 address = true ↔ default.permitsV6 address = true ∨ _
    unfold permitsV6
    cases htoIpv4 : address.toIpv4 with
    | some mapped =>
      have hform := Ipv6Addr.toIpv4_eq_some_iff.mp htoIpv4
      have hloopback : Loopback (.v6 address) ↔ loopbackBlock.Contains mapped.value := by
        constructor
        · rintro (heq | ⟨inner, hinner, hcontains⟩)
          · exact absurd heq hlocalhost
          · rw [hform.1, ← hinner.1]
            exact hcontains
        · exact fun hcontains => Or.inr ⟨mapped, hform, hcontains⟩
      rw [hloopback]
      exact loopback_permitsV4_iff mapped
    | none =>
      have hother : ¬ Loopback (.v6 address) := by
        rintro (heq | ⟨inner, hinner, -⟩)
        · exact hlocalhost heq
        · rw [Ipv6Addr.toIpv4_eq_some_iff.mpr hinner] at htoIpv4
          cases htoIpv4
      simp only [isLoopback_of_none htoIpv4, hother, or_false, Bool.false_eq_true, if_false]

theorem loopback_refuses_localhost : loopbackForTests.permitsAddress (.v6 .localhost) = false := by
  decide

end NetworkPolicy

/-! ## The addresses of an origin -/

theorem admitAddresses_ok {policy : NetworkPolicy} {port : ℕ}
    {addresses unique result : List SocketAddr} (hunique : unique.Nodup)
    (hadmitted : admitAddresses policy port unique addresses = .ok result) :
    result.Nodup ∧ (∀ address, address ∈ result ↔ address ∈ unique ∨ address ∈ addresses) ∧
      ∀ address ∈ addresses, address.port = port ∧ policy.permitsAddress address.ip = true := by
  induction addresses generalizing unique with
  | nil =>
    injection hadmitted with hresult
    rw [← hresult]
    exact ⟨hunique, fun address => by simp, fun address haddress => (by cases haddress)⟩
  | cons address addresses ih =>
    rw [admitAddresses] at hadmitted
    split at hadmitted
    · cases hadmitted
    · rename_i hpermitted
      rw [not_or, not_not, Bool.not_eq_false] at hpermitted
      split at hadmitted
      · rename_i hmem
        obtain ⟨hnodup, hresult, hmore⟩ := ih hunique hadmitted
        refine ⟨hnodup, fun found => ?_, List.forall_mem_cons.mpr ⟨hpermitted, hmore⟩⟩
        rw [hresult, List.mem_cons]
        constructor
        · rintro (h | h)
          · exact Or.inl h
          · exact Or.inr (Or.inr h)
        · rintro (h | h | h)
          · exact Or.inl h
          · rw [h]
            exact Or.inl hmem
          · exact Or.inr h
      · rename_i hmem
        have hnext : (unique ++ [address]).Nodup := by
          rw [List.nodup_append]
          refine ⟨hunique, List.nodup_singleton _, fun found hfound other hother heq => ?_⟩
          rw [List.mem_singleton.mp hother] at heq
          rw [heq] at hfound
          exact hmem hfound
        obtain ⟨hnodup, hresult, hmore⟩ := ih hnext hadmitted
        refine ⟨hnodup, fun found => ?_, List.forall_mem_cons.mpr ⟨hpermitted, hmore⟩⟩
        rw [hresult, List.mem_append, List.mem_singleton, List.mem_cons, or_assoc]

/-- Addresses that are permitted at their port are all admitted. -/
theorem admitAddresses_of_permitted {policy : NetworkPolicy} {port : ℕ}
    {addresses : List SocketAddr} (unique : List SocketAddr)
    (hpermitted : ∀ address ∈ addresses,
      address.port = port ∧ policy.permitsAddress address.ip = true) :
    ∃ result, admitAddresses policy port unique addresses = .ok result := by
  induction addresses generalizing unique with
  | nil => exact ⟨unique, rfl⟩
  | cons address addresses ih =>
    obtain ⟨⟨hport, haddress⟩, hmore⟩ := List.forall_mem_cons.mp hpermitted
    rw [admitAddresses, if_neg (by simp [hport, haddress])]
    split
    · exact ih unique hmore
    · exact ih (unique ++ [address]) hmore

/-- A resolution that does not refuse returns the distinct addresses that were looked up. -/
theorem resolveAddresses_ok {parseAddress : String → Option IpAddr} {origin : HttpOrigin}
    {policy : NetworkPolicy} {resolutionDeadline deadline : ℕ} {surroundings : Surroundings}
    {addresses result : List SocketAddr}
    (hlookup : lookupAddresses parseAddress origin resolutionDeadline deadline surroundings =
      .ok addresses)
    (hresolve : resolveAddresses parseAddress origin policy resolutionDeadline deadline
      surroundings = .ok result) :
    result.Nodup ∧ (∀ address, address ∈ result ↔ address ∈ addresses) ∧
      ∀ address ∈ result, address.port = origin.port ∧
        policy.permitsAddress address.ip = true := by
  unfold resolveAddresses at hresolve
  rw [hlookup] at hresolve
  simp only [bind, Except.bind] at hresolve
  split at hresolve
  · cases hresolve
  · cases hadmitted : admitAddresses policy origin.port [] addresses with
    | error failure =>
      rw [hadmitted] at hresolve
      cases hresolve
    | ok unique =>
      rw [hadmitted] at hresolve
      injection hresolve with hresult
      obtain ⟨hnodup, hmem, hpermitted⟩ := admitAddresses_ok List.nodup_nil hadmitted
      have hperm := List.mergeSort_perm unique fun first second => decide (first.key ≤ second.key)
      rw [hresult] at hperm
      have hsame : ∀ address, address ∈ result ↔ address ∈ addresses := by
        intro address
        rw [hperm.mem_iff, hmem]
        simp
      exact ⟨hperm.nodup_iff.mpr hnodup, hsame,
        fun address haddress => hpermitted address ((hsame address).mp haddress)⟩

theorem resolveAddresses_of_permitted {parseAddress : String → Option IpAddr}
    {origin : HttpOrigin} {policy : NetworkPolicy} {resolutionDeadline deadline : ℕ}
    {surroundings : Surroundings} {addresses : List SocketAddr}
    (hlookup : lookupAddresses parseAddress origin resolutionDeadline deadline surroundings =
      .ok addresses)
    (hsome : addresses ≠ [])
    (hpermitted : ∀ address ∈ addresses,
      address.port = origin.port ∧ policy.permitsAddress address.ip = true) :
    ∃ result, resolveAddresses parseAddress origin policy resolutionDeadline deadline
      surroundings = .ok result := by
  obtain ⟨unique, hadmitted⟩ := admitAddresses_of_permitted [] hpermitted
  unfold resolveAddresses
  rw [hlookup]
  simp only [bind, Except.bind, List.isEmpty_iff, hsome, if_false, hadmitted]
  exact ⟨_, rfl⟩

/-! ## The list of the resolver -/

/-- The wait goes on to the channel in this turn. -/
def Turn.InTime (turn : Turn) (resolutionDeadline deadline : ℕ) : Prop :=
  turn.cancelled = false ∧ turn.now < resolutionDeadline ∧ turn.now < deadline

/-- The wait ends with what the resolver of the system returned, after turns in which
nothing came. -/
inductive Answered (resolutionDeadline deadline : ℕ) (returned : Option (List SocketAddr)) :
    List Turn → Prop
  | now {turn : Turn} {turns : List Turn} (inTime : turn.InTime resolutionDeadline deadline)
      (received : turn.received = .resolved returned) :
      Answered resolutionDeadline deadline returned (turn :: turns)
  | later {turn : Turn} {turns : List Turn} (inTime : turn.InTime resolutionDeadline deadline)
      (waiting : turn.received = .timeout)
      (rest : Answered resolutionDeadline deadline returned turns) :
      Answered resolutionDeadline deadline returned (turn :: turns)

/-- The addresses of an origin before any of them is looked at: the one that it spells, or
the whole list that the resolver of the system returns to the worker. -/
inductive Returned (parseAddress : String → Option IpAddr) (origin : HttpOrigin)
    (resolutionDeadline deadline : ℕ) (surroundings : Surroundings) : List SocketAddr → Prop
  | spelled {address : IpAddr} (spells : ipAddress parseAddress origin = some address) :
      Returned parseAddress origin resolutionDeadline deadline surroundings
        [SocketAddr.new address origin.port]
  | resolved {addresses : List SocketAddr} (unspelled : ipAddress parseAddress origin = none)
      (free : surroundings.activeWorkers < maxDnsWorkers) (started : surroundings.spawns = true)
      (answered : Answered resolutionDeadline deadline (some addresses) surroundings.turns)
      (joined : surroundings.joins = true) :
      Returned parseAddress origin resolutionDeadline deadline surroundings addresses

section Returned

variable {parseAddress : String → Option IpAddr} {origin : HttpOrigin}
  {resolutionDeadline deadline : ℕ} {surroundings : Surroundings}

theorem awaitWorker_eq_ok_iff {turns : List Turn} {found : Option (List SocketAddr)} :
    awaitWorker resolutionDeadline deadline turns = .ok found ↔
      ∃ returned, Answered resolutionDeadline deadline returned turns ∧
        found = worker returned := by
  induction turns with
  | nil =>
    constructor
    · intro hawait
      cases hawait
    · rintro ⟨returned, hanswered, -⟩
      cases hanswered
  | cons turn turns ih =>
    rw [awaitWorker]
    by_cases hin : turn.InTime resolutionDeadline deadline
    · obtain ⟨hcancelled, hresolution, hdeadline⟩ := hin
      rw [if_neg (by simp [hcancelled]), if_neg (by omega)]
      cases hreceived : turn.received with
      | timeout =>
        simp only [ih]
        constructor
        · rintro ⟨returned, hanswered, hfound⟩
          exact ⟨returned, .later ⟨hcancelled, hresolution, hdeadline⟩ hreceived hanswered, hfound⟩
        · rintro ⟨returned, hanswered, hfound⟩
          cases hanswered with
          | now inTime received =>
            rw [hreceived] at received
            cases received
          | later inTime waiting rest => exact ⟨returned, rest, hfound⟩
      | disconnected =>
        constructor
        · intro hawait
          cases hawait
        · rintro ⟨returned, hanswered, -⟩
          cases hanswered with
          | now inTime received =>
            rw [hreceived] at received
            cases received
          | later inTime waiting rest =>
            rw [hreceived] at waiting
            cases waiting
      | resolved addresses =>
        constructor
        · intro hawait
          injection hawait with hfound
          exact ⟨addresses, .now ⟨hcancelled, hresolution, hdeadline⟩ hreceived, hfound.symm⟩
        · rintro ⟨returned, hanswered, hfound⟩
          cases hanswered with
          | now inTime received =>
            rw [hreceived] at received
            injection received with hsame
            rw [hfound, ← hsame]
          | later inTime waiting rest =>
            rw [hreceived] at waiting
            cases waiting
    · constructor
      · intro hawait
        split at hawait
        · cases hawait
        · next hcancelled =>
          split at hawait
          · cases hawait
          · next hlate =>
            rw [Bool.not_eq_true] at hcancelled
            exact absurd ⟨hcancelled, by omega, by omega⟩ hin
      · rintro ⟨returned, hanswered, -⟩
        cases hanswered with
        | now inTime received => exact absurd inTime hin
        | later inTime waiting rest => exact absurd inTime hin

/-- The addresses that are looked at are the first sixteen of the resolver's list. -/
theorem lookupAddresses_eq_ok_iff {addresses : List SocketAddr} :
    lookupAddresses parseAddress origin resolutionDeadline deadline surroundings =
        .ok addresses ↔
      ∃ returned, Returned parseAddress origin resolutionDeadline deadline surroundings returned ∧
        addresses = returned.take 16 := by
  unfold lookupAddresses
  cases hspelled : ipAddress parseAddress origin with
  | some address =>
    constructor
    · intro hlookup
      injection hlookup with haddresses
      exact ⟨_, .spelled hspelled, haddresses.symm⟩
    · rintro ⟨returned, hreturned, haddresses⟩
      cases hreturned with
      | spelled spells =>
        rw [hspelled] at spells
        cases spells
        rw [haddresses]
        rfl
      | resolved unspelled free started answered joined =>
        rw [hspelled] at unspelled
        cases unspelled
  | none =>
    dsimp only
    constructor
    · intro hlookup
      split at hlookup
      · cases hlookup
      · next hfree =>
        split at hlookup
        · cases hlookup
        · next hstarted =>
          obtain ⟨found, hawait, hfound⟩ := Result.bind_eq_ok.mp hlookup
          obtain ⟨returned, hanswered, hworker⟩ := awaitWorker_eq_ok_iff.mp hawait
          rw [Bool.not_eq_true, Bool.not_eq_false'] at hstarted
          split at hfound
          · cases hfound
          · next hjoined =>
            rw [Bool.not_eq_true, Bool.not_eq_false'] at hjoined
            cases returned with
            | none =>
              rw [hworker] at hfound
              cases hfound
            | some list =>
              rw [hworker] at hfound
              injection hfound with haddresses
              exact ⟨list, .resolved hspelled (by omega) hstarted hanswered hjoined,
                haddresses.symm⟩
    · rintro ⟨returned, hreturned, haddresses⟩
      cases hreturned with
      | spelled spells =>
        rw [hspelled] at spells
        cases spells
      | resolved unspelled free started answered joined =>
        rw [if_neg (by omega), if_neg (by simp [started])]
        apply Result.bind_eq_ok.mpr
        refine ⟨_, awaitWorker_eq_ok_iff.mpr ⟨_, answered, rfl⟩, ?_⟩
        rw [if_neg (by simp [joined]), haddresses]
        rfl

end Returned

/-- What a resolution returns is exactly what the resolver returned, permitted and at the
origin's port, where no address comes only after the first sixteen of a list whose first
sixteen are all permitted; the default policy permits public addresses only, and the policy
for tests those and the loopback addresses, exactly where the loopback address of version 6
is not asked for. -/
theorem outbound_addresses_iff (parseAddress : String → Option IpAddr) (origin : HttpOrigin)
    (policy : NetworkPolicy) (resolutionDeadline deadline : ℕ) (surroundings : Surroundings)
    (address : IpAddr) :
    ((∀ result,
        resolveAddresses parseAddress origin policy resolutionDeadline deadline surroundings =
          .ok result →
        (∃ returned,
          Returned parseAddress origin resolutionDeadline deadline surroundings returned) ∧
        ∀ returned,
          Returned parseAddress origin resolutionDeadline deadline surroundings returned →
          result.Nodup ∧ (∀ address, address ∈ result ↔ address ∈ returned) ∧
            ∀ address ∈ result, address.port = origin.port ∧
              policy.permitsAddress address.ip = true) ∧
      (NetworkPolicy.default.permitsAddress address = true → Public address) ∧
      (NetworkPolicy.loopbackForTests.permitsAddress address = true ↔
        NetworkPolicy.default.permitsAddress address = true ∨ Loopback address)) ↔
      address ≠ .v6 .localhost ∧
        ∀ returned,
          Returned parseAddress origin resolutionDeadline deadline surroundings returned →
          (∀ first ∈ returned.take 16,
            first.port = origin.port ∧ policy.permitsAddress first.ip = true) →
          ∀ later ∈ returned, later ∈ returned.take 16 := by
  constructor
  · rintro ⟨hresolution, -, hloopback⟩
    constructor
    · rintro rfl
      have hpermits := hloopback.mpr (Or.inr (Or.inl rfl))
      rw [NetworkPolicy.loopback_refuses_localhost] at hpermits
      cases hpermits
    · intro returned hreturned hpermitted later hlater
      have hlookup := lookupAddresses_eq_ok_iff.mpr ⟨returned, hreturned, rfl⟩
      have hsome : returned.take 16 ≠ [] := by
        cases returned with
        | nil => cases hlater
        | cons first rest => simp
      obtain ⟨result, hresolve⟩ := resolveAddresses_of_permitted hlookup hsome hpermitted
      have hmem := ((hresolution result hresolve).2 returned hreturned).2.1 later
      exact ((resolveAddresses_ok hlookup hresolve).2.1 later).mp (hmem.mpr hlater)
  · rintro ⟨haddress, hcut⟩
    refine ⟨?_, NetworkPolicy.public_of_default, NetworkPolicy.loopback_permits_iff haddress⟩
    intro result hresolve
    cases hlookup : lookupAddresses parseAddress origin resolutionDeadline deadline
        surroundings with
    | error failure =>
      unfold resolveAddresses at hresolve
      rw [hlookup] at hresolve
      cases hresolve
    | ok addresses =>
      obtain ⟨found, hfound, -⟩ := lookupAddresses_eq_ok_iff.mp hlookup
      refine ⟨⟨found, hfound⟩, ?_⟩
      intro returned hreturned
      have hsame := lookupAddresses_eq_ok_iff.mpr ⟨returned, hreturned, rfl⟩
      obtain ⟨hnodup, hmem, hpermitted⟩ := resolveAddresses_ok hsame hresolve
      refine ⟨hnodup, ?_, hpermitted⟩
      intro other
      rw [hmem other]
      constructor
      · exact fun hfirst => List.mem_of_mem_take hfirst
      · apply hcut returned hreturned
        intro first hfirst
        exact hpermitted first ((hmem first).mpr hfirst)

def sampleOrigin : HttpOrigin := ⟨.https, "example.com", 443, "https://example.com"⟩

/-- Seventeen public addresses. -/
def sampleReturned : List SocketAddr :=
  (List.range 17).map fun last => .v4 ⟨93, 184, 216, Fin.ofNat 256 last⟩ 443

def sampleSurroundings : Surroundings :=
  { activeWorkers := 0
    spawns := true
    turns := [⟨false, 0, .resolved (some sampleReturned)⟩]
    joins := true }

/-- The loopback address of version 6 is read as an address of version 4; and the last of
seventeen addresses that a resolver returns is not returned. -/
theorem localhost_refused_and_list_cut :
    ¬ (NetworkPolicy.loopbackForTests.permitsAddress (.v6 ⟨0, 0, 0, 0, 0, 0, 0, 1⟩) = true ↔
      NetworkPolicy.default.permitsAddress (.v6 ⟨0, 0, 0, 0, 0, 0, 0, 1⟩) = true ∨
        Loopback (.v6 ⟨0, 0, 0, 0, 0, 0, 0, 1⟩)) ∧
    Returned (fun _ => none) sampleOrigin 1 1 sampleSurroundings sampleReturned ∧
    .v4 ⟨93, 184, 216, 16⟩ 443 ∈ sampleReturned ∧
    ∃ result, resolveAddresses (fun _ => none) sampleOrigin .default 1 1 sampleSurroundings =
        .ok result ∧ .v4 ⟨93, 184, 216, 16⟩ 443 ∉ result := by
  have hreturned : Returned (fun _ => none) sampleOrigin 1 1 sampleSurroundings sampleReturned :=
    .resolved rfl (by decide) rfl (.now ⟨rfl, by decide, by decide⟩ rfl) rfl
  have hlookup := lookupAddresses_eq_ok_iff.mpr ⟨sampleReturned, hreturned, rfl⟩
  have hpermitted : ∀ address ∈ sampleReturned.take 16, address.port = sampleOrigin.port ∧
      NetworkPolicy.default.permitsAddress address.ip = true := by
    decide
  refine ⟨?_, hreturned, by decide, ?_⟩
  · intro hloopback
    have hpermits := hloopback.mpr (Or.inr (Or.inl rfl))
    revert hpermits
    decide
  · obtain ⟨result, hresolve⟩ := resolveAddresses_of_permitted hlookup (by decide) hpermitted
    refine ⟨result, hresolve, ?_⟩
    rw [(resolveAddresses_ok hlookup hresolve).2.1]
    decide

end Krit.Network
