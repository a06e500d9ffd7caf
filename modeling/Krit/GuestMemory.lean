import Krit.CoreScope
import Krit.GuestAllocator
import Krit.Lib.Framing
import Krit.Support

/-!
# The memory of a guest

A webhook module starts with its string literals in memory, each behind a pair of words that
say where the text is and how long.  The allocator hands out what lies behind them.
-/

namespace Krit.GuestAllocator

open WasmMemory Framing

def staticMemoryBase : ℕ := 1024
def maxMemoryPages : ℕ := 256

/-! ## Static data -/

structure StaticMemory where
  data : List UInt8
  offsets : List (ValueId × ℕ)
  heapStart : ℕ
  deriving DecidableEq, Repr

structure StaticMemoryBuilder where
  data : List UInt8
  offsets : List (ValueId × ℕ)

def checkU32 (number : ℕ) (message : String) : Except BuildError ℕ :=
  if number < 2 ^ 32 then .ok number else .error (.artifact message)

def alignU32 (value alignment : ℕ) : Option ℕ :=
  if alignment = 0 ∨ 2 ^ 32 ≤ value + (alignment - 1) then none
  else some (BitVec.ofNat 32 (value + (alignment - 1)) &&&
    ~~~ (BitVec.ofNat 32 (alignment - 1))).toNat

/-- Writes bytes over a part of a list. -/
def copyFromSlice (data : List UInt8) (offset : ℕ) (bytes : List UInt8) : List UInt8 :=
  data.take offset ++ bytes ++ data.drop (offset + bytes.length)

namespace StaticMemoryBuilder

def absoluteOffset (self : StaticMemoryBuilder) : Except BuildError ℕ := do
  let length ← checkU32 self.data.length "too much static guest data"
  checkU32 (staticMemoryBase + length) "static guest data offset overflow"

def align (self : StaticMemoryBuilder) (alignment : ℕ) : Except BuildError StaticMemoryBuilder := do
  let absolute ← self.absoluteOffset
  match alignU32 absolute alignment with
  | none => .error (.artifact "static data alignment overflow")
  | some aligned => .ok { self with data := self.data ++ List.replicate (aligned - absolute) 0 }

def addString (self : StaticMemoryBuilder) (valueId : ValueId) (value : String) :
    Except BuildError StaticMemoryBuilder := do
  let self ← self.align 4
  let pairOffset ← self.absoluteOffset
  let self := { self with data := self.data ++ List.replicate 8 0 }
  let dataOffset ← self.absoluteOffset
  let bytes := value.toUTF8.toList
  let self := { self with data := self.data ++ bytes }
  let length ← checkU32 bytes.length "string literal is too large"
  let relative := pairOffset - staticMemoryBase
  let data := copyFromSlice self.data relative (littleEndian 4 dataOffset)
  let data := copyFromSlice data (relative + 4) (littleEndian 4 length)
  .ok ⟨data, (valueId, pairOffset) :: self.offsets⟩

/-- The text of an operation that is a string literal. -/
def collectLiteral (self : StaticMemoryBuilder) (result : ValueId) :
    OperationKind → Except BuildError StaticMemoryBuilder
  | .literal (.string value) => self.addString result value
  | _ => .ok self

mutual

def collectBlock (self : StaticMemoryBuilder) : CoreBlock → Except BuildError StaticMemoryBuilder
  | ⟨_, _, operations, _, _, _, _, _⟩ => self.collectOperations operations

def collectOperations (self : StaticMemoryBuilder) :
    List CoreOperation → Except BuildError StaticMemoryBuilder
  | [] => .ok self
  | ⟨result, _, _, _, _, kind⟩ :: rest => do
      let self ← self.collectLiteral result kind
      let self ← self.collectKind kind
      self.collectOperations rest

def collectKind (self : StaticMemoryBuilder) : OperationKind → Except BuildError StaticMemoryBuilder
  | .block block => self.collectBlock block
  | .if _ consequent alternative => do
      let self ← self.collectBlock consequent
      self.collectBlock alternative
  | .matchList _ empty _ _ cons => do
      let self ← self.collectBlock empty
      self.collectBlock cons
  | .matchVariant _ _ arms => self.collectArms arms
  | _ => .ok self

def collectArms (self : StaticMemoryBuilder) :
    List VariantArmBlock → Except BuildError StaticMemoryBuilder
  | [] => .ok self
  | ⟨_, _, block⟩ :: rest => do
      let self ← self.collectBlock block
      self.collectArms rest

end

end StaticMemoryBuilder

def StaticMemory.collect (target : CoreModule) (live : LiveFunctions) :
    Except BuildError StaticMemory := do
  let builder ← (live.inModule target).foldlM
    (fun builder function => StaticMemoryBuilder.collectBlock builder function.body) ⟨[], []⟩
  let length ← checkU32 builder.data.length "too much static guest data"
  let stop ← checkU32 (staticMemoryBase + length) "static guest data offset overflow"
  match alignU32 stop 8 with
  | none => .error (.artifact "static guest heap offset overflow")
  | some heapStart => .ok ⟨builder.data, builder.offsets, heapStart⟩

/-- The memory and the heap pointer of a module when it is instantiated. -/
def StaticMemory.instantiate (self : StaticMemory) : Except BuildError Store :=
  let minimumPages := max ((self.heapStart + (pageSize - 1)) / pageSize) 1
  if maxMemoryPages < minimumPages then
    .error (.artifact "webhook static data exceeds the bounded guest memory")
  else if 2 ^ 31 ≤ self.heapStart then .error (.artifact "guest heap offset exceeds i32")
  else
    .ok
      { pages := minimumPages
        bytes := fun address =>
          if staticMemoryBase ≤ address then self.data.getD (address - staticMemoryBase) 0 else 0
        globals := [BitVec.ofNat 32 self.heapStart] }

/-! ## Literals -/

theorem checkU32_ok {number value : ℕ} {message : String}
    (hcheck : checkU32 number message = .ok value) : value = number ∧ number < 2 ^ 32 := by
  unfold checkU32 at hcheck
  split at hcheck
  · rename_i hlt
    exact ⟨(Except.ok.inj hcheck).symm, hlt⟩
  · cases hcheck

theorem alignU32_eq {value aligned bits : ℕ} (hbits : bits < 4)
    (haligned : alignU32 value (2 ^ bits) = some aligned) :
    aligned = (value + (2 ^ bits - 1)) / 2 ^ bits * 2 ^ bits := by
  unfold alignU32 at haligned
  split at haligned
  · cases haligned
  · rename_i hbounds
    rw [not_or, Nat.not_le] at hbounds
    have hmask : ~~~ (BitVec.ofNat 32 (2 ^ bits - 1)) = BitVec.ofNat 32 (2 ^ bits) * -1 := by
      interval_cases bits <;> decide
    rw [← Option.some.inj haligned, hmask, and_mask _ hbits, BitVec.toNat_ofNat,
      Nat.mod_eq_of_lt hbounds.2]

/-- The data hold a text behind a pair of words at an offset of the memory. -/
def Described (data : List UInt8) (pair : ℕ) (text : String) : Prop :=
  ∃ before after, 4 ∣ pair ∧ pair = staticMemoryBase + before.length ∧
    pair + 8 < 2 ^ 32 ∧ text.toUTF8.toList.length < 2 ^ 32 ∧
    data = before ++ littleEndian 4 (pair + 8) ++ littleEndian 4 text.toUTF8.toList.length ++
      text.toUTF8.toList ++ after

theorem Described.append {data : List UInt8} {pair : ℕ} {text : String}
    (hdescribed : Described data pair text) (more : List UInt8) :
    Described (data ++ more) pair text := by
  obtain ⟨before, after, halign, hpair, hoffset, hlength, hdata⟩ := hdescribed
  refine ⟨before, after ++ more, halign, hpair, hoffset, hlength, ?_⟩
  rw [hdata, List.append_assoc _ after]

theorem copyFromSlice_append (before old after new : List UInt8)
    (hlength : old.length = new.length) :
    copyFromSlice (before ++ old ++ after) before.length new = before ++ new ++ after := by
  unfold copyFromSlice
  have htake : (before ++ old ++ after).take before.length = before := by
    rw [List.append_assoc]
    exact List.take_left
  have hdrop : (before ++ old ++ after).drop (before.length + new.length) = after := by
    rw [← hlength, ← List.length_append]
    exact List.drop_left
  rw [htake, hdrop]

namespace StaticMemoryBuilder

variable {self other : StaticMemoryBuilder}

theorem absoluteOffset_ok {offset : ℕ} (hoffset : self.absoluteOffset = .ok offset) :
    offset = staticMemoryBase + self.data.length ∧ offset < 2 ^ 32 := by
  unfold absoluteOffset at hoffset
  simp only [Result.bind_eq_ok] at hoffset
  obtain ⟨length, hlength, hsum⟩ := hoffset
  obtain ⟨rfl, -⟩ := checkU32_ok hlength
  obtain ⟨rfl, hlt⟩ := checkU32_ok hsum
  exact ⟨rfl, hlt⟩

theorem align_ok {bits : ℕ} (hbits : bits < 4) (halign : self.align (2 ^ bits) = .ok other) :
    ∃ padding, other = { self with data := self.data ++ List.replicate padding 0 } ∧
      2 ^ bits ∣ staticMemoryBase + other.data.length := by
  unfold align at halign
  simp only [Result.bind_eq_ok] at halign
  obtain ⟨absolute, habsolute, halign⟩ := halign
  obtain ⟨rfl, -⟩ := absoluteOffset_ok habsolute
  split at halign
  · cases halign
  · rename_i aligned haligned
    have hvalue := alignU32_eq hbits haligned
    obtain ⟨hle, -, hdvd⟩ := @roundUp_le (staticMemoryBase + self.data.length) (2 ^ bits)
      (Nat.two_pow_pos bits)
    unfold roundUp at hle hdvd
    rw [← hvalue] at hle hdvd
    refine ⟨aligned - (staticMemoryBase + self.data.length), (Except.ok.inj halign).symm, ?_⟩
    rw [← Except.ok.inj halign, List.length_append, List.length_replicate]
    have hsum : staticMemoryBase + (self.data.length + (aligned - (staticMemoryBase +
        self.data.length))) = aligned := by omega
    rw [hsum]
    exact hdvd

theorem addString_ok {value : ValueId} {text : String}
    (hadd : self.addString value text = .ok other) :
    ∃ more pair, other = ⟨self.data ++ more, (value, pair) :: self.offsets⟩ ∧
      Described other.data pair text := by
  unfold addString at hadd
  simp only [Result.bind_eq_ok] at hadd
  obtain ⟨aligned, halign, pair, hpair, offset, hoffset, length, hlength, hother⟩ := hadd
  obtain ⟨padding, rfl, hdvd⟩ := @align_ok self aligned 2 (by decide) halign
  obtain ⟨rfl, -⟩ := absoluteOffset_ok hpair
  obtain ⟨hoffset, hlt⟩ := absoluteOffset_ok hoffset
  obtain ⟨rfl, hshort⟩ := checkU32_ok hlength
  dsimp only at hdvd hoffset
  generalize hbefore : self.data ++ List.replicate padding 0 = before at *
  generalize hbytes : text.toUTF8.toList = bytes at *
  rw [List.length_append, List.length_replicate] at hoffset
  rw [hoffset] at hlt
  have hrelative : staticMemoryBase + before.length - staticMemoryBase = before.length := by omega
  have hfirst : copyFromSlice (before ++ List.replicate 8 0 ++ bytes) before.length
      (littleEndian 4 offset) =
      before ++ littleEndian 4 offset ++ (List.replicate 4 0 ++ bytes) := by
    have hzeros : List.replicate 8 (0 : UInt8) = List.replicate 4 0 ++ List.replicate 4 0 := rfl
    rw [hzeros, ← List.append_assoc, List.append_assoc _ _ bytes]
    exact copyFromSlice_append before (List.replicate 4 0) _ _ (by
      rw [length_littleEndian, List.length_replicate])
  have hsecond : copyFromSlice (before ++ littleEndian 4 offset ++ (List.replicate 4 0 ++ bytes))
      (before.length + 4) (littleEndian 4 bytes.length) =
      before ++ littleEndian 4 offset ++ littleEndian 4 bytes.length ++ bytes := by
    have hlength : before.length + 4 = (before ++ littleEndian 4 offset).length := by
      rw [List.length_append, length_littleEndian]
    rw [hlength, ← List.append_assoc]
    exact copyFromSlice_append (before ++ littleEndian 4 offset) (List.replicate 4 0) bytes _ (by
      rw [length_littleEndian, List.length_replicate])
  rw [hrelative, hfirst, hsecond] at hother
  have hdata : before ++ littleEndian 4 offset ++ littleEndian 4 bytes.length ++ bytes =
      self.data ++ (List.replicate padding 0 ++ littleEndian 4 offset ++
        littleEndian 4 bytes.length ++ bytes) := by
    rw [← hbefore]
    simp only [List.append_assoc]
  refine ⟨List.replicate padding 0 ++ littleEndian 4 offset ++ littleEndian 4 bytes.length ++
    bytes, staticMemoryBase + before.length, ?_, ?_⟩
  · rw [← Except.ok.inj hother, hdata]
  · rw [← Except.ok.inj hother]
    refine ⟨before, [], hdvd, rfl, by omega, ?_, ?_⟩
    · rw [hbytes]
      exact hshort
    · dsimp only
      rw [hbytes, List.append_nil, hoffset, Nat.add_assoc]

/-! The traversal visits the operations of a block in the order of the text. -/

def collectOperation (self : StaticMemoryBuilder) (operation : CoreOperation) :
    Except BuildError StaticMemoryBuilder :=
  self.collectLiteral operation.result operation.kind

mutual

theorem collectBlock_eq (self : StaticMemoryBuilder) : (block : CoreBlock) →
    self.collectBlock block = block.nested.foldlM collectOperation self
  | ⟨_, _, operations, _, _, _, _, _⟩ => by
      rw [collectBlock, CoreBlock.nested]
      exact collectOperations_eq self operations

theorem collectOperations_eq (self : StaticMemoryBuilder) : (operations : List CoreOperation) →
    self.collectOperations operations = (operationsNested operations).foldlM collectOperation self
  | [] => by
      rw [collectOperations, operationsNested]
      rfl
  | ⟨result, _, _, _, _, kind⟩ :: rest => by
      rw [collectOperations, operationsNested, List.foldlM_cons, collectOperation]
      dsimp only
      congr 1
      funext next
      rw [List.foldlM_append, collectKind_eq next kind]
      congr 1
      funext later
      exact collectOperations_eq later rest

theorem collectKind_eq (self : StaticMemoryBuilder) : (kind : OperationKind) →
    self.collectKind kind = kind.nested.foldlM collectOperation self
  | .block block => by
      rw [collectKind, OperationKind.nested]
      exact collectBlock_eq self block
  | .if _ consequent alternative => by
      rw [collectKind, OperationKind.nested, List.foldlM_append, collectBlock_eq self consequent]
      congr 1
      funext next
      exact collectBlock_eq next alternative
  | .matchList _ empty _ _ cons => by
      rw [collectKind, OperationKind.nested, List.foldlM_append, collectBlock_eq self empty]
      congr 1
      funext next
      exact collectBlock_eq next cons
  | .matchVariant _ _ arms => by
      rw [collectKind, OperationKind.nested]
      exact collectArms_eq self arms
  | .literal _ | .unit | .builtin _ | .variant _ _ | .list _ | .record _ | .field _ _
  | .closure _ _ _ | .call _ _ | .unary _ _ | .binary _ _ _ | .bind _ _ | .discard _
  | .exit _ => by
      simp only [collectKind, OperationKind.nested]
      rfl

theorem collectArms_eq (self : StaticMemoryBuilder) : (arms : List VariantArmBlock) →
    self.collectArms arms = (armsNested arms).foldlM collectOperation self
  | [] => by
      rw [collectArms, armsNested]
      rfl
  | ⟨_, _, block⟩ :: rest => by
      rw [collectArms, armsNested, List.foldlM_append, collectBlock_eq self block]
      congr 1
      funext next
      exact collectArms_eq next rest

end

/-- What collecting from some operations adds. -/
structure Collected (operations : List CoreOperation)
    (before after : StaticMemoryBuilder) : Prop where
  longer : ∃ more, after.data = before.data ++ more
  kept : ∀ entry ∈ before.offsets, entry ∈ after.offsets
  keys : (after.offsets.map Prod.fst).Sublist
    ((operations.map CoreOperation.result).reverse ++ before.offsets.map Prod.fst)
  literals : ∀ operation ∈ operations, ∀ text, operation.kind = .literal (.string text) →
    ∃ pair, (operation.result, pair) ∈ after.offsets ∧ Described after.data pair text

theorem collectOperation_collected {operation : CoreOperation}
    (hcollect : self.collectOperation operation = .ok other) :
    Collected [operation] self other := by
  unfold collectOperation at hcollect
  by_cases hliteral : ∃ text, operation.kind = .literal (.string text)
  · obtain ⟨text, htext⟩ := hliteral
    rw [htext, collectLiteral] at hcollect
    obtain ⟨more, pair, rfl, hdescribed⟩ := addString_ok hcollect
    refine ⟨⟨more, rfl⟩, fun entry hentry => List.mem_cons_of_mem _ hentry, ?_, ?_⟩
    · exact List.Sublist.refl _
    · intro same hsame other hother
      rw [List.mem_singleton.mp hsame] at hother ⊢
      rw [htext] at hother
      cases hother
      exact ⟨pair, List.mem_cons_self, hdescribed⟩
  · have hother : self = other := by
      unfold collectLiteral at hcollect
      split at hcollect
      · rename_i text htext
        exact absurd ⟨text, htext⟩ hliteral
      · exact Except.ok.inj hcollect
    rw [← hother]
    refine ⟨⟨[], (List.append_nil _).symm⟩, fun entry hentry => hentry, ?_, ?_⟩
    · exact List.sublist_append_right _ _
    · intro same hsame text htext
      rw [List.mem_singleton.mp hsame] at htext
      exact absurd ⟨text, htext⟩ hliteral

theorem Collected.trans {first second : List CoreOperation} {middle : StaticMemoryBuilder}
    (hfirst : Collected first self middle) (hsecond : Collected second middle other) :
    Collected (first ++ second) self other := by
  obtain ⟨more, hmore⟩ := hfirst.longer
  obtain ⟨last, hlast⟩ := hsecond.longer
  refine ⟨⟨more ++ last, by rw [hlast, hmore, List.append_assoc]⟩, ?_, ?_, ?_⟩
  · intro entry hentry
    exact hsecond.kept entry (hfirst.kept entry hentry)
  · rw [List.map_append, List.reverse_append, List.append_assoc]
    exact hsecond.keys.trans (List.Sublist.append_left hfirst.keys _)
  · intro operation hoperation text htext
    rcases List.mem_append.mp hoperation with hmem | hmem
    · obtain ⟨pair, hpair, hdescribed⟩ := hfirst.literals operation hmem text htext
      rw [hlast]
      exact ⟨pair, hsecond.kept _ hpair, hdescribed.append last⟩
    · exact hsecond.literals operation hmem text htext

theorem foldlM_collected {operations : List CoreOperation}
    (hcollect : operations.foldlM collectOperation self = .ok other) :
    Collected operations self other := by
  induction operations generalizing self with
  | nil =>
    cases hcollect
    exact ⟨⟨[], (List.append_nil _).symm⟩, fun _ hentry => hentry, List.Sublist.refl _,
      fun _ hmem => (by cases hmem)⟩
  | cons operation operations ih =>
    rw [List.foldlM_cons, Result.bind_eq_ok] at hcollect
    obtain ⟨middle, hfirst, hrest⟩ := hcollect
    exact (collectOperation_collected hfirst).trans (ih hrest)

theorem functions_collected {functions : List CoreFunction}
    (hcollect : functions.foldlM (fun builder function =>
      StaticMemoryBuilder.collectBlock builder function.body) self = .ok other) :
    Collected (functions.flatMap fun function => function.body.nested) self other := by
  induction functions generalizing self with
  | nil =>
    cases hcollect
    exact ⟨⟨[], (List.append_nil _).symm⟩, fun _ hentry => hentry, List.Sublist.refl _,
      fun _ hmem => (by cases hmem)⟩
  | cons function functions ih =>
    rw [List.foldlM_cons, Result.bind_eq_ok] at hcollect
    obtain ⟨middle, hfirst, hrest⟩ := hcollect
    rw [collectBlock_eq] at hfirst
    rw [List.flatMap_cons]
    exact (foldlM_collected hfirst).trans (ih hrest)

end StaticMemoryBuilder

/-- The operations of some functions define some of the values of all functions. -/
theorem nested_sublist (functions : List CoreFunction) (keep : CoreFunction → Bool) :
    (((functions.filter keep).flatMap fun function => function.body.nested).map
      CoreOperation.result).Sublist
      ((functions.flatMap CoreFunction.definitions).map Prod.fst) := by
  induction functions with
  | nil => exact List.Sublist.refl _
  | cons function functions ih =>
    rw [List.flatMap_cons, List.map_append, List.filter_cons]
    by_cases hkeep : keep function = true
    · rw [if_pos hkeep, List.flatMap_cons, List.map_append]
      refine List.Sublist.append ?_ ih
      have hbody := function.body.nested_sublist.map Prod.fst
      rw [List.map_map] at hbody
      unfold CoreFunction.definitions
      rw [List.map_append]
      exact hbody.trans (List.sublist_append_right _ _)
    · rw [if_neg hkeep]
      exact ih.trans (List.sublist_append_right _ _)

theorem StaticMemory.collect_ok {target : CoreModule} {live : LiveFunctions}
    {static : StaticMemory} (hverify : target.verify = .ok ())
    (hcollect : StaticMemory.collect target live = .ok static) :
    staticMemoryBase + static.data.length ≤ static.heapStart ∧
      ∀ function ∈ live.inModule target, ∀ operation ∈ function.body.nested, ∀ text,
        operation.kind = .literal (.string text) →
          ∃ pair, Keyed.find operation.result static.offsets = some pair ∧
            Described static.data pair text := by
  unfold StaticMemory.collect at hcollect
  simp only [Result.bind_eq_ok] at hcollect
  obtain ⟨builder, hbuilder, length, hlength, stop, hstop, hstatic⟩ := hcollect
  obtain ⟨rfl, -⟩ := checkU32_ok hlength
  obtain ⟨rfl, -⟩ := checkU32_ok hstop
  obtain ⟨verifier, hverified⟩ := CoreModule.verified_of_verify hverify
  have hcollected := StaticMemoryBuilder.functions_collected hbuilder
  have hnodup : (builder.offsets.map Prod.fst).Nodup := by
    have hkeys := hcollected.keys
    rw [List.map_nil, List.append_nil] at hkeys
    have hresults := nested_sublist target.functions fun function => live.contains function.id
    exact hkeys.nodup (List.nodup_reverse.mpr (hresults.nodup hverified.distinct))
  split at hstatic
  · cases hstatic
  · rename_i heapStart haligned
    cases hstatic
    have hvalue := @alignU32_eq _ heapStart 3 (by decide) haligned
    obtain ⟨hle, -, -⟩ := @roundUp_le (staticMemoryBase + builder.data.length) 8 (by decide)
    unfold roundUp at hle
    refine ⟨?_, fun function hfunction operation hoperation text htext => ?_⟩
    · rw [hvalue]
      exact hle
    · obtain ⟨pair, hpair, hdescribed⟩ := hcollected.literals operation
        (List.mem_flatMap.mpr ⟨function, hfunction, hoperation⟩) text htext
      exact ⟨pair, Keyed.find_of_mem hnodup hpair, hdescribed⟩

/-! ## Runs -/

/-- A block that the allocator returned. -/
structure Block where
  pointer : ℕ
  size : ℕ
  align : ℕ
  deriving DecidableEq, Repr

def Block.Contains (block : Block) (address : ℕ) : Prop :=
  block.pointer ≤ address ∧ address < block.pointer + block.size

def Block.Disjoint (first second : Block) : Prop :=
  ∀ address, ¬ (first.Contains address ∧ second.Contains address)

/-- The store of an instance, and the blocks that were returned, the last first. -/
structure Guest where
  store : Store
  blocks : List Block

/-- The memory may grow to the pages that the module declares, as far as the host lets it. -/
def guestLimits (grants : ℕ → ℕ → Bool) : Limits := ⟨maxMemoryPages, grants⟩

/-- How a call of the allocator ends, however long it may run. -/
def Ends (grants : ℕ → ℕ → Bool) (store : Store) (request : Request) (call : Call) : Prop :=
  ∃ enough, ∀ fuel, enough ≤ fuel →
    encodeRealloc.call (guestLimits grants) fuel store request.arguments = call

/-- What happens between two calls, and what a call that returns does. -/
inductive Step : Guest → Guest → Prop
  | write {guest : Guest} {block : Block} {address : ℕ} (byte : UInt8)
      (hblock : block ∈ guest.blocks) (haddress : block.Contains address) :
      Step guest ⟨guest.store.write address byte, guest.blocks⟩
  | realloc {guest : Guest} {grants : ℕ → ℕ → Bool} {request : Request} {store : Store}
      {pointer : Word} (hcall : Ends grants guest.store request (.returned store [pointer])) :
      Step guest ⟨store, if request.newSize = 0 then guest.blocks
        else ⟨pointer.toNat, request.newSize.toNat, request.align.toNat⟩ :: guest.blocks⟩

def heapPointer (store : Store) : ℕ := (store.globals.headD 0).toNat

/-- A byte of the memory; what lies behind it is zero when the memory grows. -/
def byteAt (store : Store) (address : ℕ) : UInt8 :=
  if address < store.size then store.bytes address else 0

/-- What a call that returns a block makes of the store. -/
structure HandsOut (before : Store) (request : Request) (after : Store) (pointer : ℕ) : Prop where
  aligned : request.align.toNat ∣ pointer
  inside : pointer + request.newSize.toNat ≤ after.size
  heap : heapPointer before ≤ pointer ∧ heapPointer after = pointer + request.newSize.toNat
  /-- The bytes of an old block that ends before the new one starts, or starts behind it. -/
  taken : ∀ index < request.kept,
    pointer ≤ request.old.toNat ∨ request.old.toNat + index < pointer →
    after.bytes (pointer + index) = byteAt before (request.old.toNat + index)
  /-- A range that runs into the new block is copied as it is written. -/
  overlapping : ∀ index < request.kept, request.old.toNat < pointer →
    after.bytes (pointer + index) = after.bytes (request.old.toNat + index)
  frame : ∀ address < before.size, address < pointer ∨ pointer + request.kept ≤ address →
    after.bytes address = before.bytes address

theorem heapPointer_eq {store : Store} {heap : ℕ} (hheap : HeapAt store heap) :
    heapPointer store = heap := by
  have hle := hheap.heap_le.1
  unfold heapPointer
  rw [hheap.globals, List.headD_cons, BitVec.toNat_ofNat, Nat.mod_eq_of_lt (by omega)]

section Calls

variable {grants : ℕ → ℕ → Bool} {store : Store} {heap : ℕ} {request : Request}

theorem Ends.unique {first second : Call} (hfirst : Ends grants store request first)
    (hsecond : Ends grants store request second) : first = second := by
  obtain ⟨enough, hfirst⟩ := hfirst
  obtain ⟨more, hsecond⟩ := hsecond
  rw [← hfirst (max enough more) (le_max_left _ _), ← hsecond (max enough more) (le_max_right _ _)]

theorem byteAt_reserved (store : Store) (stop address : ℕ)
    (hinside : address < (reserved store stop).size) :
    (reserved store stop).bytes address = byteAt store address := by
  have hbytes : (reserved store stop).bytes =
      (if store.size < stop then store.grown (pagesFor stop - store.pages) else store).bytes := rfl
  have hsize : (reserved store stop).size =
      (if store.size < stop then store.grown (pagesFor stop - store.pages) else store).size := rfl
  rw [hsize] at hinside
  rw [hbytes]
  by_cases hshort : store.size < stop
  · rw [if_pos hshort]
    rfl
  · rw [if_neg hshort] at hinside ⊢
    exact (if_pos hinside).symm

theorem ends_zero (hsize : request.newSize = 0) :
    Ends grants store request (.returned store [0]) :=
  ⟨0, fun _ _ => call_zero hsize⟩

theorem ends_unmet (hsize : request.newSize ≠ 0) (hheap : HeapAt store heap)
    (hunmet : Unmet (guestLimits grants) store heap request) :
    Ends grants store request (.trapped store) :=
  ⟨0, fun _ _ => call_unmet hsize hheap hunmet⟩

theorem allocation_le (hmet : ¬ Unmet (guestLimits grants) store heap request) :
    heap ≤ request.allocation heap ∧ request.align.toNat ∣ request.allocation heap ∧
      request.stop heap < 2 ^ 32 := by
  unfold Unmet at hmet
  rw [not_or, not_not, not_or, Nat.not_le] at hmet
  obtain ⟨bits, -, -, hvalue⟩ := alignOk_pow hmet.1
  obtain ⟨hle, -, hdvd⟩ := @roundUp_le heap request.align.toNat (by
    rw [hvalue]
    exact Nat.two_pow_pos bits)
  exact ⟨hle, hdvd, hmet.2.1⟩

theorem size_le_reserved (store : Store) (stop : ℕ) : store.size ≤ (reserved store stop).size := by
  have hsize : (reserved store stop).size =
      (if store.size < stop then store.grown (pagesFor stop - store.pages) else store).size := rfl
  rw [hsize]
  split
  · rename_i hshort
    exact le_trans (le_of_lt hshort) (le_size_grown hshort)
  · exact le_refl _

/-- The store after a call that returns hands out its block. -/
theorem handsOut_copied (hheap : HeapAt store heap)
    (hmet : ¬ Unmet (guestLimits grants) store heap request)
    (hread : 0 < request.kept →
      request.old.toNat + request.kept ≤ (reserved store (request.stop heap)).size) :
    HandsOut store request (copied (reserved store (request.stop heap)) request.old.toNat
      (request.allocation heap) request.kept) (request.allocation heap) := by
  obtain ⟨hle, hdvd, hstop⟩ := allocation_le hmet
  have hinside := le_size_reserved store (request.stop heap)
  have hkept : request.kept ≤ request.newSize.toNat := by
    unfold Request.kept
    split
    · exact Nat.zero_le _
    · exact min_le_right _ _
  refine ⟨hdvd, ?_, ⟨?_, ?_⟩, ?_, ?_, ?_⟩
  · rw [copied_size]
    exact hinside
  · rw [heapPointer_eq hheap]
    exact hle
  · have hglobals : (reserved store (request.stop heap)).globals =
        [BitVec.ofNat 32 (request.stop heap)] := rfl
    unfold heapPointer
    rw [copied_globals, hglobals, List.headD_cons, BitVec.toNat_ofNat, Nat.mod_eq_of_lt hstop]
    rfl
  · intro index hindex hapart
    have hsource : request.old.toNat + index < (reserved store (request.stop heap)).size := by
      have hbound := hread (by omega)
      omega
    rw [copied_at hindex, copied_outside (by omega), byteAt_reserved store _ _ hsource]
  · intro index hindex hbehind
    rw [copied_at hindex, copied_later (Nat.le_of_lt hindex) (by omega)]
  · intro address haddress houtside
    have hsize := size_le_reserved store (request.stop heap)
    rw [copied_outside houtside, byteAt_reserved store _ _ (by omega)]
    exact if_pos haddress

/-- A request that can be met returns its block, unless the old bytes are outside the memory. -/
theorem ends_met (hsize : request.newSize ≠ 0) (hheap : HeapAt store heap)
    (hmet : ¬ Unmet (guestLimits grants) store heap request) :
    (∃ after, Ends grants store request
        (.returned after [BitVec.ofNat 32 (request.allocation heap)]) ∧
      HandsOut store request after (request.allocation heap) ∧ after.pages ≤ maxMemoryPages ∧
      after.globals = [BitVec.ofNat 32 (request.stop heap)]) ∨
    (∃ after, Ends grants store request (.trapped after)) ∧
      0 < request.kept ∧ store.size < request.old.toNat + request.kept := by
  have hpages := @reserved_pages (guestLimits grants) store heap request hheap rfl hmet
  by_cases hread : 0 < request.kept ∧
      (reserved store (request.stop heap)).size < request.old.toNat + request.kept
  · refine Or.inr ⟨⟨copied (reserved store (request.stop heap)) request.old.toNat
      (request.allocation heap)
      ((reserved store (request.stop heap)).size - request.old.toNat),
      request.newSize.toNat + 1, fun fuel hfuel => ?_⟩, hread.1, ?_⟩
    · rcases @call_met (guestLimits grants) fuel store heap request hsize hheap rfl hmet hfuel with
        ⟨-, hbound⟩ | ⟨htrap, -⟩
      · have hle := hbound hread.1
        omega
      · exact htrap
    · exact lt_of_le_of_lt (size_le_reserved _ _) hread.2
  · refine Or.inl ⟨copied (reserved store (request.stop heap)) request.old.toNat
      (request.allocation heap) request.kept,
      ⟨request.newSize.toNat + 1, fun fuel hfuel => ?_⟩, ?_, ?_, ?_⟩
    · rcases @call_met (guestLimits grants) fuel store heap request hsize hheap rfl hmet hfuel with
        ⟨hreturned, -⟩ | ⟨-, hbound⟩
      · exact hreturned
      · exact absurd hbound hread
    · refine handsOut_copied hheap hmet fun hpos => ?_
      by_contra hnot
      exact hread ⟨hpos, Nat.not_le.mp hnot⟩
    · rw [copied_pages]
      exact hpages
    · rw [copied_globals]
      rfl

end Calls

/-! ## What holds in every run -/

/-- The invariant of a run from a store with its heap at an address: the blocks lie between
that address and the heap pointer, apart from each other, and nothing before it changes. -/
structure Guest.Kept (start : ℕ) (initial : Store) (guest : Guest) : Prop where
  heap : ∃ heap, HeapAt guest.store heap ∧ start ≤ heap ∧
    ∀ block ∈ guest.blocks, block.pointer + block.size ≤ heap
  aligned : ∀ block ∈ guest.blocks, block.align ∣ block.pointer
  above : ∀ block ∈ guest.blocks, start ≤ block.pointer
  disjoint : guest.blocks.Pairwise Block.Disjoint
  below : ∀ address < start, guest.store.bytes address = initial.bytes address

theorem Guest.Kept.step {start : ℕ} {initial : Store} {guest next : Guest}
    (hkept : guest.Kept start initial) (hstep : Step guest next) : next.Kept start initial := by
  obtain ⟨heap, hheap, hstart, hblocks⟩ := hkept.heap
  cases hstep with
  | @write block address byte hblock haddress =>
    refine ⟨⟨heap, ⟨hheap.globals, hheap.inside, hheap.pages⟩, hstart, hblocks⟩, hkept.aligned,
      hkept.above, hkept.disjoint, fun before hbefore => ?_⟩
    have hle := hkept.above block hblock
    have hne : before ≠ address := by
      have hinside := haddress.1
      omega
    unfold Store.write
    dsimp only
    rw [Function.update_of_ne hne]
    exact hkept.below before hbefore
  | @realloc grants request store pointer hcall =>
    by_cases hsize : request.newSize = 0
    · cases hcall.unique (ends_zero hsize)
      rw [if_pos hsize]
      exact hkept
    rw [if_neg hsize]
    by_cases hunmet : Unmet (guestLimits grants) guest.store heap request
    · cases hcall.unique (ends_unmet hsize hheap hunmet)
    rcases ends_met hsize hheap hunmet with ⟨after, hends, hhands, hpages, hglobals⟩ |
      ⟨⟨after, hends⟩, -⟩
    · cases hcall.unique hends
      obtain ⟨hle, -, hstop⟩ := allocation_le hunmet
      have hpointer : (BitVec.ofNat 32 (request.allocation heap)).toNat =
          request.allocation heap := by
        unfold Request.stop at hstop
        rw [BitVec.toNat_ofNat, Nat.mod_eq_of_lt (by omega)]
      rw [hpointer]
      refine ⟨⟨request.stop heap, ⟨hglobals, hhands.inside, hpages⟩, ?_, ?_⟩, ?_, ?_, ?_, ?_⟩
      · unfold Request.stop
        omega
      · intro block hblock
        rcases List.mem_cons.mp hblock with rfl | hmem
        · exact le_refl _
        · have hold := hblocks block hmem
          unfold Request.stop
          omega
      · intro block hblock
        rcases List.mem_cons.mp hblock with rfl | hmem
        · exact hhands.aligned
        · exact hkept.aligned block hmem
      · intro block hblock
        rcases List.mem_cons.mp hblock with rfl | hmem
        · exact le_trans hstart hle
        · exact hkept.above block hmem
      · refine List.pairwise_cons.mpr ⟨fun block hblock address hboth => ?_, hkept.disjoint⟩
        have hold := hblocks block hblock
        obtain ⟨⟨hlow, -⟩, -, hhigh⟩ := hboth
        dsimp only at hlow
        omega
      · intro address haddress
        have hinside := hheap.inside
        rw [hhands.frame address (by omega) (Or.inl (by omega))]
        exact hkept.below address haddress
    · cases hcall.unique hends

theorem Guest.Kept.run {start : ℕ} {initial : Store} {guest next : Guest}
    (hkept : guest.Kept start initial) (hrun : Relation.ReflTransGen Step guest next) :
    next.Kept start initial := by
  induction hrun with
  | refl => exact hkept
  | tail _ hstep ih => exact ih.step hstep

/-- The memory holds bytes at an address. -/
def Holds (store : Store) (address : ℕ) (bytes : List UInt8) : Prop :=
  ∀ index byte, bytes[index]? = some byte → store.bytes (address + index) = byte

/-- The pair of words at an address describes a text in the memory. -/
def DescribesLiteral (store : Store) (pair : ℕ) (text : String) : Prop :=
  ∃ offset, 4 ∣ pair ∧ offset < 2 ^ 32 ∧ text.toUTF8.toList.length < 2 ^ 32 ∧
    Holds store pair (littleEndian 4 offset) ∧
    Holds store (pair + 4) (littleEndian 4 text.toUTF8.toList.length) ∧
    Holds store offset text.toUTF8.toList

theorem holds_data {static : StaticMemory} {initial store : Store} {before bytes after : List UInt8}
    (hinitial : static.instantiate = .ok initial)
    (hstart : staticMemoryBase + static.data.length ≤ static.heapStart)
    (hbelow : ∀ address < static.heapStart, store.bytes address = initial.bytes address)
    (hdata : static.data = before ++ bytes ++ after) :
    Holds store (staticMemoryBase + before.length) bytes := by
  have hbytes : ∀ address, staticMemoryBase ≤ address →
      initial.bytes address = static.data.getD (address - staticMemoryBase) 0 := by
    intro address haddress
    unfold StaticMemory.instantiate at hinitial
    dsimp only at hinitial
    split at hinitial
    · cases hinitial
    · split at hinitial
      · cases hinitial
      · cases hinitial
        exact if_pos haddress
  intro index byte hbyte
  have hindex := (List.getElem?_eq_some_iff.mp hbyte).1
  have hlength := congrArg List.length hdata
  rw [List.length_append, List.length_append] at hlength
  have hoffset : staticMemoryBase + before.length + index - staticMemoryBase =
      before.length + index := by omega
  have hget : static.data[before.length + index]? = some byte := by
    rw [hdata, List.append_assoc, List.getElem?_append_right (by omega), Nat.add_sub_cancel_left,
      List.getElem?_append_left hindex]
    exact hbyte
  rw [hbelow _ (by omega), hbytes _ (by omega), hoffset, List.getD_eq_getElem?_getD, hget]
  rfl

theorem describesLiteral {static : StaticMemory} {initial store : Store} {pair : ℕ} {text : String}
    (hinitial : static.instantiate = .ok initial)
    (hstart : staticMemoryBase + static.data.length ≤ static.heapStart)
    (hbelow : ∀ address < static.heapStart, store.bytes address = initial.bytes address)
    (hdescribed : Described static.data pair text) : DescribesLiteral store pair text := by
  obtain ⟨before, after, halign, hpair, hoffset, hlength, hdata⟩ := hdescribed
  have hfirst := @holds_data static initial store before (littleEndian 4 (pair + 8))
    (littleEndian 4 text.toUTF8.toList.length ++ text.toUTF8.toList ++ after) hinitial hstart
    hbelow (by rw [hdata]; simp only [List.append_assoc])
  have hsecond := @holds_data static initial store (before ++ littleEndian 4 (pair + 8))
    (littleEndian 4 text.toUTF8.toList.length) (text.toUTF8.toList ++ after) hinitial hstart
    hbelow (by rw [hdata]; simp only [List.append_assoc])
  have hthird := @holds_data static initial store (before ++ littleEndian 4 (pair + 8) ++
    littleEndian 4 text.toUTF8.toList.length) text.toUTF8.toList after hinitial hstart hbelow hdata
  rw [← hpair] at hfirst
  rw [List.length_append, length_littleEndian, ← Nat.add_assoc, ← hpair] at hsecond
  rw [List.length_append, List.length_append, length_littleEndian, length_littleEndian,
    Nat.add_assoc before.length, ← Nat.add_assoc, ← hpair] at hthird
  exact ⟨pair + 8, halign, hoffset, hlength, hfirst, hsecond, hthird⟩

theorem kept_initial {static : StaticMemory} {store : Store}
    (hstore : static.instantiate = .ok store) :
    (⟨store, []⟩ : Guest).Kept static.heapStart store := by
  unfold StaticMemory.instantiate at hstore
  dsimp only at hstore
  split at hstore
  · cases hstore
  · rename_i hpages
    split at hstore
    · cases hstore
    · cases hstore
      refine ⟨⟨static.heapStart, ⟨rfl, ?_, Nat.not_lt.mp hpages⟩, le_refl _,
        fun _ hmem => (by cases hmem)⟩, fun _ hmem => (by cases hmem),
        fun _ hmem => (by cases hmem), List.Pairwise.nil, fun _ _ => rfl⟩
      unfold Store.size pageSize
      dsimp only
      omega

/-- The part of an old block that is taken over comes out as it was. -/
theorem HandsOut.old_block {before after : Store} {request : Request} {pointer : ℕ}
    (hhands : HandsOut before request after pointer)
    (hinside : request.old.toNat + request.oldSize.toNat ≤ heapPointer before)
    (hmemory : heapPointer before ≤ before.size) :
    ∀ index < request.kept,
      after.bytes (pointer + index) = before.bytes (request.old.toNat + index) := by
  intro index hindex
  have hkept : request.kept ≤ request.oldSize.toNat := by
    unfold Request.kept
    split
    · exact Nat.zero_le _
    · exact min_le_left _ _
  have hheap := hhands.heap.1
  rw [hhands.taken index hindex (Or.inr (by omega))]
  exact if_pos (by omega)

/-- In every run of a compiled module the allocator hands out fresh memory, and the literals
stay where the module put them. -/
theorem guest_allocator_fresh (target : CoreModule) (live : LiveFunctions) (static : StaticMemory)
    (initial : Store) (guest : Guest) (hverify : target.verify = .ok ())
    (hcollect : StaticMemory.collect target live = .ok static)
    (hinitial : static.instantiate = .ok initial)
    (hrun : Relation.ReflTransGen Step ⟨initial, []⟩ guest) :
    (∀ block ∈ guest.blocks, block.align ∣ block.pointer ∧
      staticMemoryBase + static.data.length ≤ block.pointer ∧
      block.pointer + block.size ≤ guest.store.size) ∧
    guest.blocks.Pairwise Block.Disjoint ∧
    (∀ function ∈ live.inModule target, ∀ operation ∈ function.body.nested, ∀ text,
      operation.kind = .literal (.string text) →
        ∃ pair, Keyed.find operation.result static.offsets = some pair ∧
          DescribesLiteral guest.store pair text) ∧
    ∀ grants request,
      (request.newSize = 0 → Ends grants guest.store request (.returned guest.store [0])) ∧
      (request.newSize ≠ 0 →
        (Unmet (guestLimits grants) guest.store (heapPointer guest.store) request →
          Ends grants guest.store request (.trapped guest.store)) ∧
        (¬ Unmet (guestLimits grants) guest.store (heapPointer guest.store) request →
          (∃ after pointer, Ends grants guest.store request (.returned after [pointer]) ∧
            HandsOut guest.store request after pointer.toNat ∧
            ∀ block ∈ guest.blocks, block.pointer ≤ request.old.toNat →
              request.old.toNat + request.oldSize.toNat ≤ block.pointer + block.size →
              ∀ index < min request.oldSize.toNat request.newSize.toNat,
                after.bytes (pointer.toNat + index) =
                  guest.store.bytes (request.old.toNat + index)) ∨
          (∃ after, Ends grants guest.store request (.trapped after)) ∧
            0 < request.kept ∧ guest.store.size < request.old.toNat + request.kept)) := by
  obtain ⟨hstart, hliterals⟩ := StaticMemory.collect_ok hverify hcollect
  have hkept := (kept_initial hinitial).run hrun
  obtain ⟨heap, hheap, hle, hblocks⟩ := hkept.heap
  have hinside := hheap.inside
  refine ⟨fun block hblock => ⟨hkept.aligned block hblock, ?_, ?_⟩, hkept.disjoint, ?_, ?_⟩
  · exact le_trans hstart (hkept.above block hblock)
  · exact le_trans (hblocks block hblock) hinside
  · intro function hfunction operation hoperation text htext
    obtain ⟨pair, hpair, hdescribed⟩ := hliterals function hfunction operation hoperation text htext
    exact ⟨pair, hpair, describesLiteral hinitial hstart hkept.below hdescribed⟩
  · intro grants request
    rw [heapPointer_eq hheap]
    refine ⟨fun hsize => ends_zero hsize, fun hsize => ⟨ends_unmet hsize hheap, fun hmet => ?_⟩⟩
    rcases ends_met hsize hheap hmet with ⟨after, hends, hhands, -, -⟩ | htrapped
    · obtain ⟨-, -, hstop⟩ := allocation_le hmet
      have hpointer : (BitVec.ofNat 32 (request.allocation heap)).toNat =
          request.allocation heap := by
        unfold Request.stop at hstop
        rw [BitVec.toNat_ofNat, Nat.mod_eq_of_lt (by omega)]
      rw [← hpointer] at hhands
      refine Or.inl ⟨after, _, hends, hhands, fun block hblock hfirst hlast index hindex => ?_⟩
      have habove := hkept.above block hblock
      have hend := hblocks block hblock
      have hgiven : request.old ≠ 0 := by
        intro hnull
        rw [hnull] at hfirst
        have hzero : (0 : Word).toNat = 0 := rfl
        unfold staticMemoryBase at hstart
        omega
      have hcount : request.kept = min request.oldSize.toNat request.newSize.toNat :=
        if_neg hgiven
      refine hhands.old_block ?_ ?_ index (by omega)
      · rw [heapPointer_eq hheap]
        omega
      · rw [heapPointer_eq hheap]
        exact hinside
    · exact Or.inr htrapped

/-- A module that binds a text. -/
def greetingModule : CoreModule where
  entrypoints := [⟨.moduleInit, 0⟩]
  bindings := []
  functions :=
    [{ id := 0
       debugName := none
       source := none
       signature := ⟨[], .unit, ∅, ∅⟩
       parameters := []
       captures := []
       recursive := none
       body :=
        ⟨0, [],
          [⟨0, .string, ∅, ∅, none, .literal (.string "hello")⟩, ⟨1, .unit, ∅, ∅, none, .unit⟩],
          1, .unit, ∅, ∅, none⟩ }]

/-- Its text, behind the pair of words, and the heap on the next multiple of eight. -/
def greetingMemory : StaticMemory :=
  ⟨[8, 4, 0, 0, 5, 0, 0, 0, 104, 101, 108, 108, 111], [(0, 1024)], 1040⟩

/-- Four bytes, and eight bytes that take over the four. -/
def firstRequest : Request := ⟨0, 0, 4, 4⟩
def secondRequest : Request := ⟨1040, 4, 8, 8⟩

theorem met_of_inside {limits : Limits} {store : Store} {heap : ℕ} {request : Request}
    (halign : AlignOk request.align) (hstop : request.stop heap < 2 ^ 32)
    (hinside : request.stop heap ≤ store.size) : ¬ Unmet limits store heap request := by
  rintro (hbad | hover | ⟨hshort, -⟩)
  · exact hbad halign
  · exact absurd hover (Nat.not_le.mpr hstop)
  · exact absurd hshort (Nat.not_lt.mpr hinside)

theorem greeting_collect : StaticMemory.collect greetingModule ⟨[0]⟩ = .ok greetingMemory := by
  have hsome : (StaticMemory.collect greetingModule ⟨[0]⟩).toOption = some greetingMemory := by
    decide +kernel
  cases hresult : StaticMemory.collect greetingModule ⟨[0]⟩ with
  | error error =>
    rw [hresult] at hsome
    cases hsome
  | ok static =>
    rw [hresult] at hsome
    exact congrArg Except.ok (Option.some.inj hsome)

theorem greeting_instantiate : ∃ initial, greetingMemory.instantiate = .ok initial ∧
    HeapAt initial 1040 ∧ 1044 ≤ initial.size := by
  unfold StaticMemory.instantiate
  dsimp only
  rw [if_neg (by decide), if_neg (by decide)]
  exact ⟨_, rfl, ⟨rfl, by decide, by decide⟩, by decide⟩

/-- A call that is asked for bytes adds its block to those that were returned. -/
theorem Step.returned {guest : Guest} {grants : ℕ → ℕ → Bool} {request : Request} {store : Store}
    {pointer : Word} (hcall : Ends grants guest.store request (.returned store [pointer]))
    (hsize : request.newSize ≠ 0) {block : Block}
    (hblock : block = ⟨pointer.toNat, request.newSize.toNat, request.align.toNat⟩) :
    Step guest ⟨store, block :: guest.blocks⟩ := by
  have hstep := Step.realloc hcall
  rw [if_neg hsize, ← hblock] at hstep
  exact hstep

/-- The first request returns four bytes on the heap. -/
theorem first_returned {initial : Store} (hheap : HeapAt initial 1040)
    (hinside : 1044 ≤ initial.size) (grants : ℕ → ℕ → Bool) :
    ∃ first, Ends grants initial firstRequest (.returned first [1040]) ∧
      HeapAt first 1044 ∧ 1056 ≤ first.size := by
  have hmet : ¬ Unmet (guestLimits grants) initial 1040 firstRequest :=
    met_of_inside (by decide) (by decide) hinside
  rcases ends_met (by decide) hheap hmet with ⟨first, hends, hhands, hpages, hglobals⟩ |
    ⟨-, hkept, -⟩
  · have hsize : 1044 ≤ first.size := hhands.inside
    refine ⟨first, hends, ⟨hglobals, hsize, hpages⟩, ?_⟩
    unfold Store.size pageSize at hsize ⊢
    omega
  · exact absurd hkept (by decide)

/-- The second request returns eight bytes behind them, on its own boundary. -/
theorem second_returned {stored : Store} (hheap : HeapAt stored 1044)
    (hinside : 1056 ≤ stored.size) (grants : ℕ → ℕ → Bool) :
    ∃ final, Ends grants stored secondRequest (.returned final [1048]) := by
  have hmet : ¬ Unmet (guestLimits grants) stored 1044 secondRequest :=
    met_of_inside (by decide) (by decide) hinside
  rcases ends_met (by decide) hheap hmet with ⟨final, hends, -⟩ | ⟨-, -, hbehind⟩
  · exact ⟨final, hends⟩
  · have hend : secondRequest.old.toNat + secondRequest.kept = 1044 := by decide
    omega

/-- A block is allocated and written, and grows: the second block is fresh, and it holds the
bytes of the first. -/
theorem guest_allocator_fresh_greeting :
    ∃ initial first final, greetingMemory.instantiate = .ok initial ∧
      Ends (fun _ _ => true) initial firstRequest (.returned first [1040]) ∧
      Ends (fun _ _ => true) (first.write 1041 7) secondRequest (.returned final [1048]) ∧
      (∀ block ∈ ([⟨1048, 8, 8⟩, ⟨1040, 4, 4⟩] : List Block), block.align ∣ block.pointer ∧
        staticMemoryBase + greetingMemory.data.length ≤ block.pointer ∧
        block.pointer + block.size ≤ final.size) ∧
      ([⟨1048, 8, 8⟩, ⟨1040, 4, 4⟩] : List Block).Pairwise Block.Disjoint ∧
      (∀ index < 4, final.bytes (1048 + index) = (first.write 1041 7).bytes (1040 + index)) ∧
      final.bytes 1049 = 7 ∧
      ∃ pair, Keyed.find 0 greetingMemory.offsets = some pair ∧
        DescribesLiteral final pair "hello" := by
  obtain ⟨initial, hinitial, hheap, hinside⟩ := greeting_instantiate
  obtain ⟨first, hfirst, hheapFirst, hinsideFirst⟩ := first_returned hheap hinside fun _ _ => true
  have hheapStored : HeapAt (first.write 1041 7) 1044 :=
    ⟨hheapFirst.globals, hheapFirst.inside, hheapFirst.pages⟩
  obtain ⟨final, hsecond⟩ := second_returned hheapStored hinsideFirst fun _ _ => true
  have hverify : greetingModule.verify = .ok () := Result.eq_ok_of_toBool (by decide +kernel)
  -- the two calls, with the write to the first block between them
  have hwritten : Relation.ReflTransGen Step ⟨initial, []⟩
      ⟨first.write 1041 7, [⟨1040, 4, 4⟩]⟩ := by
    have hcall : Step ⟨initial, []⟩ ⟨first, [⟨1040, 4, 4⟩]⟩ :=
      @Step.returned ⟨initial, []⟩ (fun _ _ => true) firstRequest first 1040 hfirst (by decide)
        ⟨1040, 4, 4⟩ (by decide)
    have hwrite : Step ⟨first, [⟨1040, 4, 4⟩]⟩ ⟨first.write 1041 7, [⟨1040, 4, 4⟩]⟩ :=
      Step.write 7 List.mem_cons_self (by unfold Block.Contains; decide)
    exact (Relation.ReflTransGen.single hcall).tail hwrite
  have hrun : Relation.ReflTransGen Step ⟨initial, []⟩
      ⟨final, [⟨1048, 8, 8⟩, ⟨1040, 4, 4⟩]⟩ := by
    have hcall : Step ⟨first.write 1041 7, [⟨1040, 4, 4⟩]⟩
        ⟨final, [⟨1048, 8, 8⟩, ⟨1040, 4, 4⟩]⟩ :=
      @Step.returned ⟨first.write 1041 7, [⟨1040, 4, 4⟩]⟩ (fun _ _ => true) secondRequest final
        1048 hsecond (by decide) ⟨1048, 8, 8⟩ (by decide)
    exact hwritten.tail hcall
  obtain ⟨-, -, -, hrequests⟩ := guest_allocator_fresh greetingModule ⟨[0]⟩ greetingMemory initial
    _ hverify greeting_collect hinitial hwritten
  obtain ⟨hblocks, hdisjoint, hliterals, -⟩ := guest_allocator_fresh greetingModule ⟨[0]⟩
    greetingMemory initial _ hverify greeting_collect hinitial hrun
  have hmet : ¬ Unmet (guestLimits fun _ _ => true) (first.write 1041 7)
      (heapPointer (first.write 1041 7)) secondRequest := by
    rw [heapPointer_eq hheapStored]
    exact met_of_inside (by decide) (by decide) hinsideFirst
  have hcopied : ∀ index < 4,
      final.bytes (1048 + index) = (first.write 1041 7).bytes (1040 + index) := by
    rcases ((hrequests (fun _ _ => true) secondRequest).2 (by decide)).2 hmet with
      ⟨after, pointer, hends, -, hcopy⟩ | ⟨⟨after, htrapped⟩, -⟩
    · have hsame := Ends.unique hends hsecond
      rw [Call.returned.injEq, List.cons.injEq] at hsame
      obtain ⟨hafter, hpointer, -⟩ := hsame
      have hnew : pointer.toNat = 1048 := by
        rw [hpointer]
        decide
      have hold : secondRequest.old.toNat = 1040 := by decide
      have hcount : min secondRequest.oldSize.toNat secondRequest.newSize.toNat = 4 := by decide
      have hbytes := hcopy ⟨1040, 4, 4⟩ List.mem_cons_self (by decide) (by decide)
      rw [hafter, hnew, hold, hcount] at hbytes
      exact hbytes
    · cases Ends.unique htrapped hsecond
  have hbyte : final.bytes 1049 = 7 := hcopied 1 (by decide)
  exact ⟨initial, first, final, hinitial, hfirst, hsecond, hblocks, hdisjoint, hcopied,
    hbyte, hliterals _ (List.mem_filter.mpr ⟨List.mem_singleton_self _, rfl⟩)
    ⟨0, .string, ∅, ∅, none, .literal (.string "hello")⟩ List.mem_cons_self "hello" rfl⟩

end Krit.GuestAllocator
