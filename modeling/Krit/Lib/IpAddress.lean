import Mathlib.Tactic

/-!
# Internet addresses

Addresses of version 4 by their four octets and of version 6 by their eight segments, the
blocks of addresses with a common prefix, and the ways in which an address of version 6
carries one of version 4.
-/

namespace Net

theorem octet_neZero : NeZero 256 := ⟨by decide⟩

theorem segment_neZero : NeZero 65536 := ⟨by decide⟩

attribute [local instance] octet_neZero segment_neZero

@[ext] structure Ipv4Addr where
  first : Fin 256
  second : Fin 256
  third : Fin 256
  fourth : Fin 256
  deriving DecidableEq, Repr

@[ext] structure Ipv6Addr where
  s0 : Fin 65536
  s1 : Fin 65536
  s2 : Fin 65536
  s3 : Fin 65536
  s4 : Fin 65536
  s5 : Fin 65536
  s6 : Fin 65536
  s7 : Fin 65536
  deriving DecidableEq, Repr

inductive IpAddr where
  | v4 (address : Ipv4Addr)
  | v6 (address : Ipv6Addr)
  deriving DecidableEq, Repr

/-! ## Blocks -/

/-- A block of addresses: the bits after a prefix are free. -/
structure Block where
  base : ℕ
  free : ℕ

namespace Block

def Contains (block : Block) (value : ℕ) : Prop :=
  value / 2 ^ block.free = block.base / 2 ^ block.free

instance (block : Block) (value : ℕ) : Decidable (block.Contains value) :=
  inferInstanceAs (Decidable (_ = _))

end Block

/-! ## Version 4 -/

namespace Ipv4Addr

def value (address : Ipv4Addr) : ℕ :=
  ((address.first.val * 256 + address.second.val) * 256 + address.third.val) * 256 +
    address.fourth.val

/-- The block of the addresses that share a number of leading bits with an address. -/
def block (address : Ipv4Addr) (length : ℕ) : Block := ⟨address.value, 32 - length⟩

def isUnspecified (address : Ipv4Addr) : Bool := address == ⟨0, 0, 0, 0⟩

def isLoopback (address : Ipv4Addr) : Bool := address.first == 127

def isPrivate (address : Ipv4Addr) : Bool :=
  address.first == 10 || (address.first == 172 && 16 ≤ address.second && address.second ≤ 31) ||
    (address.first == 192 && address.second == 168)

def isLinkLocal (address : Ipv4Addr) : Bool := address.first == 169 && address.second == 254

def isMulticast (address : Ipv4Addr) : Bool := 224 ≤ address.first && address.first ≤ 239

def isBroadcast (address : Ipv4Addr) : Bool := address == ⟨255, 255, 255, 255⟩

/-- The address whose halves are two segments. -/
def ofSegments (high low : Fin 65536) : Ipv4Addr :=
  ⟨⟨high.val / 256, by omega⟩, ⟨high.val % 256, by omega⟩, ⟨low.val / 256, by omega⟩,
    ⟨low.val % 256, by omega⟩⟩

end Ipv4Addr

/-! ## Version 6 -/

namespace Ipv6Addr

def value (address : Ipv6Addr) : ℕ :=
  ((((((address.s0.val * 65536 + address.s1.val) * 65536 + address.s2.val) * 65536 +
    address.s3.val) * 65536 + address.s4.val) * 65536 + address.s5.val) * 65536 +
    address.s6.val) * 65536 + address.s7.val

def block (address : Ipv6Addr) (length : ℕ) : Block := ⟨address.value, 128 - length⟩

def localhost : Ipv6Addr := ⟨0, 0, 0, 0, 0, 0, 0, 1⟩

def isUnspecified (address : Ipv6Addr) : Bool := address == ⟨0, 0, 0, 0, 0, 0, 0, 0⟩

def isLoopback (address : Ipv6Addr) : Bool := address == localhost

def isMulticast (address : Ipv6Addr) : Bool := address.s0.val >>> 8 == 0xff

def isUniqueLocal (address : Ipv6Addr) : Bool := address.s0.val &&& 0xfe00 == 0xfc00

def isUnicastLinkLocal (address : Ipv6Addr) : Bool := address.s0.val &&& 0xffc0 == 0xfe80

/-- The address of version 4 in a mapped or compatible address. -/
def toIpv4 (address : Ipv6Addr) : Option Ipv4Addr :=
  if address.s0 = 0 ∧ address.s1 = 0 ∧ address.s2 = 0 ∧ address.s3 = 0 ∧ address.s4 = 0 ∧
      (address.s5 = 0 ∨ address.s5 = 0xffff) then
    some (.ofSegments address.s6 address.s7)
  else none

/-- The mapped and the compatible form of an address of version 4. -/
def IsForm (address : Ipv6Addr) (inner : Ipv4Addr) : Prop :=
  inner = .ofSegments address.s6 address.s7 ∧
    ((block ⟨0, 0, 0, 0, 0, 0xffff, 0, 0⟩ 96).Contains address.value ∨
      (block ⟨0, 0, 0, 0, 0, 0, 0, 0⟩ 96).Contains address.value)

/-- The forms in which an address of version 6 carries one of version 4. -/
inductive Embeds (address : Ipv6Addr) : Ipv4Addr → Prop where
  | form {inner : Ipv4Addr} (hform : address.IsForm inner) : Embeds address inner
  | sixToFour (hblock : (block ⟨0x2002, 0, 0, 0, 0, 0, 0, 0⟩ 16).Contains address.value) :
      Embeds address (.ofSegments address.s1 address.s2)
  | teredoServer (hblock : (block ⟨0x2001, 0, 0, 0, 0, 0, 0, 0⟩ 32).Contains address.value) :
      Embeds address (.ofSegments address.s2 address.s3)
  | teredoClient (hblock : (block ⟨0x2001, 0, 0, 0, 0, 0, 0, 0⟩ 32).Contains address.value) :
      Embeds address (.ofSegments address.s6.rev address.s7.rev)
  | translated (hblock : (block ⟨0x64, 0xff9b, 0, 0, 0, 0, 0, 0⟩ 96).Contains address.value) :
      Embeds address (.ofSegments address.s6 address.s7)

end Ipv6Addr

/-! ## Masks -/

/-- A mask of leading bits keeps the quotient. -/
theorem mask_eq {width free value : ℕ} (hvalue : value < 2 ^ width) :
    value &&& ((2 ^ (width - free) - 1) <<< free) = value / 2 ^ free * 2 ^ free := by
  apply Nat.eq_of_testBit_eq
  intro index
  rw [Nat.testBit_and, Nat.testBit_shiftLeft, Nat.testBit_two_pow_sub_one, ← Nat.shiftLeft_eq,
    Nat.testBit_shiftLeft, Nat.testBit_div_two_pow]
  by_cases hfree : free ≤ index
  · have hindex : free + (index - free) = index := Nat.add_sub_cancel' hfree
    by_cases hwidth : index < width
    · have hlt : index - free < width - free := by omega
      simp [hfree, hlt]
    · have hbit : value.testBit index = false :=
        Nat.testBit_lt_two_pow (lt_of_lt_of_le hvalue (Nat.pow_le_pow_right (by decide) (by omega)))
      simp [hbit, hfree]
  · simp [hfree]

/-! ## Prefixes and octets -/

namespace Ipv4Addr

/-- A block with a prefix inside the first octet. -/
theorem contains_first {address base : Ipv4Addr} {free : ℕ} (hfree : free ≤ 8) :
    (base.block (8 - free)).Contains address.value ↔
      address.first.val / 2 ^ free = base.first.val / 2 ^ free := by
  have haddress : address.value / 2 ^ 24 = address.first.val := by
    unfold value
    omega
  have hbase : base.value / 2 ^ 24 = base.first.val := by
    unfold value
    omega
  have hbits : 32 - (8 - free) = 24 + free := by omega
  simp only [block, Block.Contains, hbits]
  rw [Nat.pow_add, ← Nat.div_div_eq_div_mul, ← Nat.div_div_eq_div_mul, haddress, hbase]

/-- A block with a prefix inside the second octet. -/
theorem contains_second {address base : Ipv4Addr} {free : ℕ} (hfree : free ≤ 8) :
    (base.block (16 - free)).Contains address.value ↔
      address.first = base.first ∧ address.second.val / 2 ^ free = base.second.val / 2 ^ free := by
  have haddress : address.value / 2 ^ 16 = address.first.val * 256 + address.second.val := by
    unfold value
    omega
  have hbase : base.value / 2 ^ 16 = base.first.val * 256 + base.second.val := by
    unfold value
    omega
  have hbits : 32 - (16 - free) = 16 + free := by omega
  simp only [block, Block.Contains, hbits]
  rw [Nat.pow_add, ← Nat.div_div_eq_div_mul, ← Nat.div_div_eq_div_mul, haddress, hbase,
    Fin.ext_iff]
  interval_cases free <;> omega

/-- A block with a prefix of three octets. -/
theorem contains_third {address base : Ipv4Addr} :
    (base.block 24).Contains address.value ↔ address.first = base.first ∧
      address.second = base.second ∧ address.third = base.third := by
  have haddress : address.value / 2 ^ 8 =
      (address.first.val * 256 + address.second.val) * 256 + address.third.val := by
    unfold value
    omega
  have hbase : base.value / 2 ^ 8 =
      (base.first.val * 256 + base.second.val) * 256 + base.third.val := by
    unfold value
    omega
  change address.value / 2 ^ 8 = base.value / 2 ^ 8 ↔ _
  rw [haddress, hbase, Fin.ext_iff, Fin.ext_iff, Fin.ext_iff]
  omega

end Ipv4Addr

namespace Ipv6Addr

/-- A block with a prefix inside the first segment. -/
theorem contains_s0 {address base : Ipv6Addr} {free : ℕ} (hfree : free ≤ 16) :
    (base.block (16 - free)).Contains address.value ↔
      address.s0.val / 2 ^ free = base.s0.val / 2 ^ free := by
  have haddress : address.value / 2 ^ 112 = address.s0.val := by
    unfold value
    omega
  have hbase : base.value / 2 ^ 112 = base.s0.val := by
    unfold value
    omega
  have hbits : 128 - (16 - free) = 112 + free := by omega
  simp only [block, Block.Contains, hbits]
  rw [Nat.pow_add, ← Nat.div_div_eq_div_mul, ← Nat.div_div_eq_div_mul, haddress, hbase]

/-- A block with a prefix inside the second segment. -/
theorem contains_s1 {address base : Ipv6Addr} {free : ℕ} (hfree : free ≤ 16) :
    (base.block (32 - free)).Contains address.value ↔
      address.s0 = base.s0 ∧ address.s1.val / 2 ^ free = base.s1.val / 2 ^ free := by
  have haddress : address.value / 2 ^ 96 = address.s0.val * 65536 + address.s1.val := by
    unfold value
    omega
  have hbase : base.value / 2 ^ 96 = base.s0.val * 65536 + base.s1.val := by
    unfold value
    omega
  have hbits : 128 - (32 - free) = 96 + free := by omega
  simp only [block, Block.Contains, hbits]
  rw [Nat.pow_add, ← Nat.div_div_eq_div_mul, ← Nat.div_div_eq_div_mul, haddress, hbase,
    Fin.ext_iff]
  interval_cases free <;> omega

/-- A block with a prefix of six segments. -/
theorem contains_s5 {address base : Ipv6Addr} :
    (base.block 96).Contains address.value ↔ address.s0 = base.s0 ∧ address.s1 = base.s1 ∧
      address.s2 = base.s2 ∧ address.s3 = base.s3 ∧ address.s4 = base.s4 ∧
        address.s5 = base.s5 := by
  have hvalue : ∀ address : Ipv6Addr, address.value / 2 ^ 32 =
      ((((address.s0.val * 65536 + address.s1.val) * 65536 + address.s2.val) * 65536 +
        address.s3.val) * 65536 + address.s4.val) * 65536 + address.s5.val := by
    intro address
    unfold value
    omega
  change address.value / 2 ^ 32 = base.value / 2 ^ 32 ↔ _
  rw [hvalue, hvalue]
  simp only [Fin.ext_iff]
  omega

/-- A block with one address. -/
theorem contains_s7 {address base : Ipv6Addr} :
    (base.block 128).Contains address.value ↔ address = base := by
  change address.value / 2 ^ 0 = base.value / 2 ^ 0 ↔ _
  rw [Nat.pow_zero, Nat.div_one, Nat.div_one]
  constructor
  · intro hvalue
    unfold value at hvalue
    ext <;> omega
  · intro heq
    rw [heq]

theorem toIpv4_eq_some_iff {address : Ipv6Addr} {inner : Ipv4Addr} :
    address.toIpv4 = some inner ↔ address.IsForm inner := by
  unfold toIpv4 IsForm
  rw [contains_s5, contains_s5]
  constructor
  · intro hsome
    split at hsome
    · rename_i hblock
      obtain ⟨h0, h1, h2, h3, h4, h5⟩ := hblock
      refine ⟨(Option.some.inj hsome).symm, ?_⟩
      rcases h5 with h5 | h5
      · exact Or.inr ⟨h0, h1, h2, h3, h4, h5⟩
      · exact Or.inl ⟨h0, h1, h2, h3, h4, h5⟩
    · cases hsome
  · rintro ⟨rfl, ⟨h0, h1, h2, h3, h4, h5⟩ | ⟨h0, h1, h2, h3, h4, h5⟩⟩
    · rw [if_pos ⟨h0, h1, h2, h3, h4, Or.inr h5⟩]
    · rw [if_pos ⟨h0, h1, h2, h3, h4, Or.inl h5⟩]

end Ipv6Addr

end Net
