import Krit.Lib.WasmMemory
import Mathlib.Tactic.IntervalCases
import Mathlib.Tactic.Ring

/-!
# The guest allocator

The `realloc` function that the backend emits into every webhook module.  It hands out memory
behind a heap pointer, which is the first global, grows the memory when it has to, and copies
what an old block held.  Nothing is freed.
-/

namespace Krit.GuestAllocator

open WasmMemory

/-! ## The emitted code

The parameters are the old pointer, the old size, the alignment and the new size.  The locals
behind them are the allocation, its end, a scratch word and the copy index. -/

def checkAlign : List Instr :=
  [.localGet 2, .eqz, .cond 0 [.unreachable] [],
    .localGet 2, .const 8, .operator .gtU, .cond 0 [.unreachable] [],
    .localGet 2, .const 1, .operator .sub, .localGet 2, .operator .and, .eqz,
    .cond 0 [] [.unreachable]]

def reserve : List Instr :=
  [.globalGet 0, .localGet 2, .const 1, .operator .sub, .operator .add,
    .localGet 2, .const (-1), .operator .mul, .operator .and, .localTee 4,
    .localGet 3, .operator .add, .localTee 5, .localGet 4, .operator .ltU,
    .cond 0 [.unreachable] []]

def growBy : List Instr :=
  [.localGet 5, .const 1, .operator .sub, .const 16, .operator .shrU, .const 1, .operator .add,
    .memorySize, .operator .sub, .memoryGrow, .const (-1), .operator .eq,
    .cond 0 [.unreachable] []]

def growMemory : List Instr :=
  [.memorySize, .const 65536, .operator .mul, .localTee 6, .localGet 5, .operator .ltU,
    .cond 0 growBy []]

def commit : List Instr := [.localGet 5, .globalSet 0]

/-- One round of the copy loop. -/
def copyRound : List Instr :=
  [.localGet 7, .localGet 6, .operator .geU, .brIf 1,
    .localGet 4, .localGet 7, .operator .add, .localGet 0, .localGet 7, .operator .add,
    .load8U 0, .store8 0,
    .localGet 7, .const 1, .operator .add, .localSet 7, .br 0]

def copyOld : List Instr :=
  [.localGet 0, .eqz,
    .cond 0 []
      [.localGet 1, .localGet 3, .operator .ltU, .cond 1 [.localGet 1] [.localGet 3],
        .localSet 6, .const 0, .localSet 7, .block 0 [.loop copyRound]]]

def encodeRealloc : Function :=
  ⟨4, 1, [.localGet 3, .eqz,
    .cond 1 [.const 0]
      (checkAlign ++ reserve ++ growMemory ++ commit ++ copyOld ++ [.localGet 4])]⟩

/-! ## What the parts do -/

/-- The parameters and locals of a call. -/
structure Locals where
  old : Word
  oldSize : Word
  align : Word
  newSize : Word
  allocation : Word
  stop : Word
  scratch : Word
  index : Word

def Locals.words (locals : Locals) : List Word :=
  [locals.old, locals.oldSize, locals.align, locals.newSize, locals.allocation, locals.stop,
    locals.scratch, locals.index]

def AlignOk (align : Word) : Prop :=
  align ≠ 0 ∧ BitVec.ult 8 align = false ∧ (align - 1) &&& align = 0

instance (align : Word) : Decidable (AlignOk align) :=
  inferInstanceAs (Decidable (_ ∧ _ ∧ _))

/-- The heap pointer, moved up to an alignment. -/
def alignUp (heap align : Word) : Word := (heap + (align - 1)) &&& (align * -1)

/-- The pages that the memory lacks up to an address. -/
def missingPages (store : Store) (stop : Word) : Word :=
  ((stop - 1) >>> 16) + 1 - BitVec.ofNat 32 store.pages

section Parts

variable {limits : Limits} {fuel : ℕ} {store : Store} {locals : Locals}

theorem checkAlign_eq :
    execAll limits fuel ⟨store, locals.words, []⟩ checkAlign =
      if AlignOk locals.align then .done ⟨store, locals.words, []⟩ else .trap store := by
  unfold checkAlign Locals.words
  by_cases hzero : locals.align = 0
  · have hnot : ¬ AlignOk locals.align := fun hok => hok.1 hzero
    rw [if_neg hnot]
    simp [hzero]
  by_cases hbig : BitVec.ult 8 locals.align = true
  · have hnot : ¬ AlignOk locals.align := fun hok => Bool.false_ne_true (hok.2.1.symm.trans hbig)
    rw [if_neg hnot]
    simp only [BitVec.ofNat_eq_ofNat] at hzero hbig
    simp [Operator.apply, hzero, hbig]
  by_cases hpower : (locals.align - 1) &&& locals.align = 0
  · have hok : AlignOk locals.align := ⟨hzero, Bool.eq_false_iff.mpr hbig, hpower⟩
    rw [if_pos hok]
    simp only [BitVec.ofNat_eq_ofNat] at hzero hbig hpower
    simp [Operator.apply, hzero, hbig, hpower]
  · have hnot : ¬ AlignOk locals.align := fun hok => hpower hok.2.2
    rw [if_neg hnot]
    simp only [BitVec.ofNat_eq_ofNat] at hzero hbig hpower
    simp [Operator.apply, hzero, hbig, hpower]

theorem reserve_eq {heap : Word} (hheap : store.globals[0]? = some heap) :
    let allocation := alignUp heap locals.align
    let stop := allocation + locals.newSize
    execAll limits fuel ⟨store, locals.words, []⟩ reserve =
      if stop.ult allocation = true then .trap store
      else .done ⟨store, { locals with allocation := allocation, stop := stop }.words, []⟩ := by
  unfold reserve Locals.words alignUp
  simp [Operator.apply, hheap]

theorem growBy_eq (hpages : store.pages < 65536) :
    execAll limits fuel ⟨store, locals.words, []⟩ growBy =
      let more := missingPages store locals.stop
      if limits.allows store.pages more.toNat then
        .done ⟨store.grown more.toNat, locals.words, []⟩
      else .trap store := by
  have hshift : (16 : Word).toNat % 32 = 16 := by decide
  have hne : (BitVec.ofNat 32 store.pages == -1) = false := by
    rw [beq_eq_false_iff_ne]
    intro heq
    have htoNat := congrArg BitVec.toNat heq
    rw [BitVec.toNat_ofNat, Nat.mod_eq_of_lt (by omega)] at htoNat
    have hminus : (-1 : Word).toNat = 4294967295 := by decide
    omega
  unfold growBy Locals.words missingPages
  simp only [execAll_localGet, List.getElem?_cons_succ, List.getElem?_cons_zero, execAll_const,
    execAll_operator, Operator.apply, execAll_memorySize, execAll_memoryGrow, execAll_trapIf,
    execAll_nil, hshift, hne, if_neg Bool.false_ne_true, beq_self_eq_true, if_pos]

theorem growMemory_eq (hpages : store.pages < 65536) :
    let scratch := BitVec.ofNat 32 store.pages * 65536
    let more := missingPages store locals.stop
    execAll limits fuel ⟨store, locals.words, []⟩ growMemory =
      if scratch.ult locals.stop = true then
        if limits.allows store.pages more.toNat then
          .done ⟨store.grown more.toNat, { locals with scratch := scratch }.words, []⟩
        else .trap store
      else .done ⟨store, { locals with scratch := scratch }.words, []⟩ := by
  intro scratch more
  have hbegin : execAll limits fuel ⟨store, locals.words, []⟩ growMemory =
      execAll limits fuel ⟨store, { locals with scratch := scratch }.words,
        [word (scratch.ult locals.stop)]⟩ [.cond 0 growBy []] := by
    unfold growMemory Locals.words
    simp only [execAll_localGet, execAll_localTee, List.getElem?_cons_succ,
      List.getElem?_cons_zero, execAll_const, execAll_operator, Operator.apply,
      execAll_memorySize, List.length_cons, List.length_nil, List.set_cons_succ,
      List.set_cons_zero, Nat.reduceAdd, Nat.reduceLT, if_pos]
    rfl
  rw [hbegin, execAll_cond]
  by_cases hless : scratch.ult locals.stop = true
  · rw [if_pos hless, if_pos hless, growBy_eq hpages]
    by_cases hallowed : limits.allows store.pages more.toNat
    · rw [if_pos hallowed, labelled, andThen_done, execAll_nil]
      rfl
    · rw [if_neg hallowed]
      rfl
  · rw [if_neg hless, if_neg hless, execAll_nil, labelled, andThen_done, execAll_nil]
    rfl

theorem commit_eq {heap : Word} (hheap : store.globals = [heap]) :
    execAll limits fuel ⟨store, locals.words, []⟩ commit =
      .done ⟨{ store with globals := [locals.stop] }, locals.words, []⟩ := by
  unfold commit Locals.words
  simp [hheap]

/-! ### The copy loop -/

theorem copyRound_eq :
    execAll limits fuel ⟨store, locals.words, []⟩ copyRound =
      if locals.scratch.ule locals.index = true then .branch 1 ⟨store, locals.words, []⟩
      else if (locals.old + locals.index).toNat < store.size then
        if (locals.allocation + locals.index).toNat < store.size then
          .branch 0 ⟨store.write (locals.allocation + locals.index).toNat
            (store.bytes (locals.old + locals.index).toNat),
            { locals with index := locals.index + 1 }.words, []⟩
        else .trap store
      else .trap store := by
  have hbyte : ∀ byte : UInt8, UInt8.ofNat (BitVec.ofNat 32 byte.toNat).toNat = byte := by
    intro byte
    have hlt := byte.toNat_lt
    rw [BitVec.toNat_ofNat, Nat.mod_eq_of_lt (by omega), UInt8.ofNat_toNat]
  unfold copyRound Locals.words
  simp only [execAll_localGet, List.getElem?_cons_succ, List.getElem?_cons_zero, execAll_const,
    execAll_operator, Operator.apply, execAll_brIf, execAll_load8U, execAll_store8,
    execAll_localSet, execAll_br, Nat.add_zero, hbyte, List.length_cons, List.length_nil,
    List.set_cons_succ, List.set_cons_zero, Nat.reduceAdd, Nat.reduceLT, if_pos]

/-- A store after some rounds of the copy loop. -/
def copied (store : Store) (source target : ℕ) : ℕ → Store
  | 0 => store
  | count + 1 =>
      let before := copied store source target count
      before.write (target + count) (before.bytes (source + count))

@[simp] theorem copied_pages (source target count : ℕ) :
    (copied store source target count).pages = store.pages := by
  induction count with
  | zero => rfl
  | succ count ih => exact ih

@[simp] theorem copied_globals (source target count : ℕ) :
    (copied store source target count).globals = store.globals := by
  induction count with
  | zero => rfl
  | succ count ih => exact ih

theorem copied_size (source target count : ℕ) :
    (copied store source target count).size = store.size := by
  unfold Store.size
  rw [copied_pages]

theorem copied_outside {source target count address : ℕ}
    (houtside : address < target ∨ target + count ≤ address) :
    (copied store source target count).bytes address = store.bytes address := by
  induction count with
  | zero => rfl
  | succ count ih =>
    have hne : address ≠ target + count := by omega
    rw [copied]
    unfold Store.write
    dsimp only
    rw [Function.update_of_ne hne]
    exact ih (by omega)

/-- Later rounds write behind what earlier ones wrote. -/
theorem copied_later {source target first count address : ℕ} (hle : first ≤ count)
    (haddress : address < target + first) :
    (copied store source target count).bytes address =
      (copied store source target first).bytes address := by
  induction count, hle using Nat.le_induction with
  | base => rfl
  | succ count hle ih =>
    have hne : address ≠ target + count := by omega
    rw [copied]
    unfold Store.write
    dsimp only
    rw [Function.update_of_ne hne]
    exact ih

theorem copied_at {source target index count : ℕ} (hindex : index < count) :
    (copied store source target count).bytes (target + index) =
      (copied store source target index).bytes (source + index) := by
  rw [copied_later (Nat.succ_le_of_lt hindex) (Nat.add_lt_add_left (Nat.lt_succ_self index) target),
    copied]
  unfold Store.write
  dsimp only
  rw [Function.update_self]

/-- The loop ends: it leaves the block around it, or a load is outside the memory. -/
theorem rounds_copy {source target count index rounds : ℕ} (hsource : source = locals.old.toNat)
    (htarget : target = locals.allocation.toNat) (hcount : count = locals.scratch.toNat)
    (hinside : target + count ≤ store.size) (hsize : store.size < 2 ^ 32)
    (hindex : index ≤ count) (hread : index ≤ store.size - source)
    (hfuel : count < index + rounds) (hwrap : source + index < 2 ^ 32) :
    let result := WasmMemory.rounds (fun inner => execAll limits fuel inner copyRound) [] rounds
      ⟨copied store source target index,
        { locals with index := BitVec.ofNat 32 index }.words, []⟩
    (result = .branch 0 ⟨copied store source target count,
        { locals with index := BitVec.ofNat 32 count }.words, []⟩ ∧
      (index < count → source + count ≤ store.size)) ∨
    result = .trap (copied store source target (store.size - source)) ∧
      index < count ∧ store.size < source + count := by
  have hscratch := locals.scratch.isLt
  induction rounds generalizing index with
  | zero => omega
  | succ rounds ih =>
    dsimp only
    rw [WasmMemory.rounds, copyRound_eq]
    dsimp only
    have hword : (BitVec.ofNat 32 index).toNat = index := by
      rw [BitVec.toNat_ofNat, Nat.mod_eq_of_lt (by omega)]
    by_cases hdone : index = count
    · have hle : locals.scratch.ule (BitVec.ofNat 32 index) = true := by
        rw [BitVec.ule, decide_eq_true_eq, hword]
        omega
      rw [if_pos hle, hdone]
      exact Or.inl ⟨rfl, fun hlt => absurd hlt (lt_irrefl _)⟩
    · have hless : ¬ locals.scratch.ule (BitVec.ofNat 32 index) = true := by
        rw [BitVec.ule, decide_eq_true_eq, hword]
        omega
      have hload : (locals.old + BitVec.ofNat 32 index).toNat = source + index := by
        rw [BitVec.toNat_add, hword, ← hsource, Nat.mod_eq_of_lt hwrap]
      have hstore : (locals.allocation + BitVec.ofNat 32 index).toNat = target + index := by
        rw [BitVec.toNat_add, hword, ← htarget, Nat.mod_eq_of_lt (by omega)]
      rw [if_neg hless, hload, hstore, copied_size]
      by_cases hinner : source + index < store.size
      · rw [if_pos hinner, if_pos (by omega)]
        dsimp only
        have hnext : BitVec.ofNat 32 index + 1 = BitVec.ofNat 32 (index + 1) := by
          rw [BitVec.ofNat_add]
          rfl
        rw [hnext]
        rcases @ih (index + 1) (by omega) (by omega) (by omega) (by omega) with ⟨hresult, hlast⟩ |
          ⟨htrap, -, hbound⟩
        · refine Or.inl ⟨hresult, fun _ => ?_⟩
          by_cases hmore : index + 1 < count
          · exact hlast hmore
          · omega
        · exact Or.inr ⟨htrap, by omega, hbound⟩
      · have hreached : index = store.size - source := by omega
        rw [if_neg hinner]
        exact Or.inr ⟨by rw [← hreached], by omega, by omega⟩

theorem copyOld_null (hnull : locals.old = 0) :
    execAll limits fuel ⟨store, locals.words, []⟩ copyOld =
      .done ⟨store, locals.words, []⟩ := by
  unfold copyOld Locals.words
  simp only [execAll_localGet, List.getElem?_cons_zero, execAll_eqz, hnull, beq_self_eq_true,
    execAll_cond, if_pos, execAll_nil, labelled, andThen_done, leave, List.take_nil,
    List.nil_append]

/-- The bytes that a call copies. -/
def copyCount (oldSize newSize : Word) : Word :=
  if oldSize.ult newSize = true then oldSize else newSize

theorem copyCount_toNat (oldSize newSize : Word) :
    (copyCount oldSize newSize).toNat = min oldSize.toNat newSize.toNat := by
  unfold copyCount
  by_cases hless : oldSize.ult newSize = true
  · rw [if_pos hless]
    rw [BitVec.ult, decide_eq_true_eq] at hless
    omega
  · rw [if_neg hless]
    rw [BitVec.ult, decide_eq_true_eq] at hless
    omega

theorem copyOld_given (hgiven : ¬ locals.old = 0) :
    execAll limits fuel ⟨store, locals.words, []⟩ copyOld =
      labelled 0 [] (labelled 0 [] (WasmMemory.rounds
        (fun inner => execAll limits fuel inner copyRound) [] fuel
        ⟨store, { locals with
          scratch := copyCount locals.oldSize locals.newSize, index := 0 }.words, []⟩)) := by
  have hfalse : (locals.old == 0) = false := beq_eq_false_iff_ne.mpr hgiven
  have hcount : ∀ words : List Word, (if locals.oldSize.ult locals.newSize = true then
      (Outcome.done ⟨store, words, [locals.oldSize]⟩) else .done ⟨store, words, [locals.newSize]⟩) =
      .done ⟨store, words, [copyCount locals.oldSize locals.newSize]⟩ := by
    intro words
    unfold copyCount
    split
    · rfl
    · rfl
  unfold copyOld Locals.words
  simp only [execAll_localGet, List.getElem?_cons_zero, List.getElem?_cons_succ, execAll_eqz,
    hfalse, execAll_cond, if_neg Bool.false_ne_true, execAll_operator, Operator.apply,
    execAll_nil, hcount, labelled_done, leave, List.take_succ_cons, List.take_zero, List.append_nil,
    andThen_done, andThen_self, execAll_localSet, execAll_const, execAll_block, execAll_loop,
    List.length_cons, List.length_nil, List.set_cons_succ, List.set_cons_zero, Nat.reduceAdd,
    Nat.reduceLT, if_pos]

end Parts

/-! ## Addresses -/

theorem alignOk_iff (align : Word) :
    AlignOk align ↔ align = 1 ∨ align = 2 ∨ align = 4 ∨ align = 8 := by
  constructor
  · rintro ⟨hzero, hbig, hpower⟩
    have hle : align.toNat ≤ 8 := by
      rw [BitVec.ult, decide_eq_false_iff_not] at hbig
      simp at hbig
      omega
    have hvalue : align = BitVec.ofNat 32 align.toNat := by simp
    generalize align.toNat = number at hle hvalue
    interval_cases number <;> subst hvalue <;> revert hzero hpower <;> decide
  · rintro (rfl | rfl | rfl | rfl) <;> decide

/-- A mask with the low bits clear. -/
theorem and_mask (number : Word) {bits : ℕ} (hbits : bits < 4) :
    (number &&& ((BitVec.ofNat 32 (2 ^ bits)) * -1)).toNat =
      number.toNat / 2 ^ bits * 2 ^ bits := by
  have hshift : number &&& (BitVec.ofNat 32 (2 ^ bits) * -1) = (number >>> bits) <<< bits := by
    ext index hindex
    interval_cases bits <;> interval_cases index <;> simp
  rw [hshift, BitVec.toNat_shiftLeft, BitVec.toNat_ushiftRight, Nat.shiftLeft_eq,
    Nat.shiftRight_eq_div_pow]
  have hlt := number.isLt
  have hle := Nat.div_mul_le_self number.toNat (2 ^ bits)
  rw [Nat.mod_eq_of_lt (by omega)]

/-- The first multiple of an alignment from a heap pointer on. -/
def roundUp (heap align : ℕ) : ℕ := (heap + (align - 1)) / align * align

theorem alignOk_pow {align : Word} (halign : AlignOk align) :
    ∃ bits, bits < 4 ∧ align = BitVec.ofNat 32 (2 ^ bits) ∧ align.toNat = 2 ^ bits := by
  rcases (alignOk_iff align).mp halign with rfl | rfl | rfl | rfl
  · exact ⟨0, by decide, rfl, rfl⟩
  · exact ⟨1, by decide, rfl, rfl⟩
  · exact ⟨2, by decide, rfl, rfl⟩
  · exact ⟨3, by decide, rfl, rfl⟩

theorem alignUp_toNat {heap align : Word} (halign : AlignOk align) (hheap : heap.toNat ≤ 2 ^ 24) :
    (alignUp heap align).toNat = roundUp heap.toNat align.toNat := by
  obtain ⟨bits, hbits, hvalue, hnumber⟩ := alignOk_pow halign
  have hpos : 0 < 2 ^ bits := Nat.two_pow_pos bits
  have hle : 2 ^ bits ≤ 8 := by
    have hpow := Nat.pow_le_pow_right (Nat.succ_pos 1) (Nat.le_of_lt_succ hbits)
    omega
  have hbefore : (align - 1).toNat = 2 ^ bits - 1 := by
    rw [BitVec.toNat_sub, hnumber]
    have hone : (1 : Word).toNat = 1 := rfl
    rw [hone]
    omega
  have hsum : (heap + (align - 1)).toNat = heap.toNat + (2 ^ bits - 1) := by
    rw [BitVec.toNat_add, hbefore, Nat.mod_eq_of_lt (by omega)]
  unfold alignUp roundUp
  rw [hnumber, ← hsum, ← and_mask _ hbits, ← hvalue]

theorem roundUp_le {heap align : ℕ} (halign : 0 < align) :
    heap ≤ roundUp heap align ∧ roundUp heap align < heap + align ∧ align ∣ roundUp heap align := by
  unfold roundUp
  have hdiv := Nat.div_add_mod (heap + (align - 1)) align
  have hmod := Nat.mod_lt (heap + (align - 1)) halign
  rw [Nat.mul_comm] at hdiv
  refine ⟨by omega, by omega, Nat.dvd_mul_left _ _⟩

/-- The pages that hold the bytes before an address. -/
def pagesFor (stop : ℕ) : ℕ := (stop - 1) / pageSize + 1

theorem missingPages_toNat {store : Store} {stop : Word} (hpages : store.pages ≤ 256)
    (hless : store.size < stop.toNat) :
    (missingPages store stop).toNat = pagesFor stop.toNat - store.pages := by
  have hlt := stop.isLt
  have hone : (1 : Word).toNat = 1 := rfl
  have hbefore : (stop - 1).toNat = stop.toNat - 1 := by
    rw [BitVec.toNat_sub, hone]
    omega
  have hword : (BitVec.ofNat 32 store.pages).toNat = store.pages := by
    rw [BitVec.toNat_ofNat, Nat.mod_eq_of_lt (by omega)]
  have hshift : ((stop - 1) >>> 16).toNat = (stop.toNat - 1) / 65536 := by
    rw [BitVec.toNat_ushiftRight, hbefore, Nat.shiftRight_eq_div_pow]
  have hnext : (((stop - 1) >>> 16) + 1).toNat = (stop.toNat - 1) / 65536 + 1 := by
    rw [BitVec.toNat_add, hshift, hone]
    omega
  unfold missingPages pagesFor
  unfold Store.size at hless
  unfold pageSize at hless ⊢
  rw [BitVec.toNat_sub, hword, hnext]
  omega

theorem sizeWord_toNat {store : Store} (hpages : store.pages ≤ 256) :
    (BitVec.ofNat 32 store.pages * 65536).toNat = store.size := by
  have hfactor : (65536 : Word).toNat = 65536 := rfl
  unfold Store.size pageSize
  rw [BitVec.toNat_mul, BitVec.toNat_ofNat, hfactor]
  omega

theorem le_size_grown {store : Store} {stop : ℕ} (hless : store.size < stop) :
    stop ≤ (store.grown (pagesFor stop - store.pages)).size := by
  unfold Store.size at hless
  unfold Store.size Store.grown pagesFor
  unfold pageSize at hless ⊢
  dsimp only
  omega

/-! ## A call -/

/-- The arguments of a call. -/
structure Request where
  old : Word
  oldSize : Word
  align : Word
  newSize : Word

namespace Request

def arguments (request : Request) : List Word :=
  [request.old, request.oldSize, request.align, request.newSize]

/-- Where the new block starts. -/
def allocation (request : Request) (heap : ℕ) : ℕ := roundUp heap request.align.toNat

/-- Where the new block ends. -/
def stop (request : Request) (heap : ℕ) : ℕ := request.allocation heap + request.newSize.toNat

/-- How many bytes of the old block the new one takes over. -/
def kept (request : Request) : ℕ :=
  if request.old = 0 then 0 else min request.oldSize.toNat request.newSize.toNat

end Request

/-- A request that cannot be met: a bad alignment, an end outside the addresses, or a memory
that may not grow that far. -/
def Unmet (limits : Limits) (store : Store) (heap : ℕ) (request : Request) : Prop :=
  ¬ AlignOk request.align ∨ 2 ^ 32 ≤ request.stop heap ∨
    (store.size < request.stop heap ∧
      ¬ limits.allows store.pages (pagesFor (request.stop heap) - store.pages))

/-- The store with the heap moved to the end of a block. -/
def reserved (store : Store) (stop : ℕ) : Store :=
  { (if store.size < stop then store.grown (pagesFor stop - store.pages) else store) with
    globals := [BitVec.ofNat 32 stop] }

/-- A store whose heap pointer is inside its memory. -/
structure HeapAt (store : Store) (heap : ℕ) : Prop where
  globals : store.globals = [BitVec.ofNat 32 heap]
  inside : heap ≤ store.size
  pages : store.pages ≤ 256

theorem HeapAt.heap_le {store : Store} {heap : ℕ} (hheap : HeapAt store heap) :
    heap ≤ 2 ^ 24 ∧ store.size ≤ 2 ^ 24 := by
  have hinside := hheap.inside
  have hpages := hheap.pages
  unfold Store.size pageSize at hinside ⊢
  omega

section Call

variable {limits : Limits} {fuel : ℕ} {store : Store} {heap : ℕ} {request : Request}

def firstLocals (request : Request) : Locals :=
  ⟨request.old, request.oldSize, request.align, request.newSize, 0, 0, 0, 0⟩

theorem call_eq (hsize : request.newSize ≠ 0) :
    encodeRealloc.call limits fuel store request.arguments =
      match labelled 1 [] (labelled 1 [] (execAll limits fuel
        ⟨store, (firstLocals request).words, []⟩
        (checkAlign ++ reserve ++ growMemory ++ commit ++ copyOld ++ [.localGet 4]))) with
      | .done final => .returned final.store final.stack
      | .trap store => .trapped store
      | .exhausted => .exhausted
      | _ => .invalid := by
  have hfalse : (request.newSize == 0) = false := beq_eq_false_iff_ne.mpr hsize
  have hlocals : request.arguments ++ List.replicate 4 0 = (firstLocals request).words := rfl
  have hbody : execAll limits fuel ⟨store, (firstLocals request).words, []⟩ encodeRealloc.body =
      labelled 1 [] (execAll limits fuel ⟨store, (firstLocals request).words, []⟩
        (checkAlign ++ reserve ++ growMemory ++ commit ++ copyOld ++ [.localGet 4])) := by
    unfold encodeRealloc firstLocals Locals.words
    dsimp only
    rw [execAll_localGet]
    simp only [List.getElem?_cons_succ, List.getElem?_cons_zero, execAll_eqz, hfalse,
      execAll_cond, if_neg Bool.false_ne_true, execAll_nil, andThen_self]
  unfold Function.call
  rw [← hbody, ← hlocals]
  rfl

/-- Nothing is handed out for no bytes. -/
theorem call_zero (hsize : request.newSize = 0) :
    encodeRealloc.call limits fuel store request.arguments = .returned store [0] := by
  have hbody : execAll limits fuel ⟨store, (firstLocals request).words, []⟩ encodeRealloc.body =
      .done ⟨store, (firstLocals request).words, [0]⟩ := by
    unfold encodeRealloc firstLocals Locals.words
    simp only [execAll_localGet, List.getElem?_cons_succ, List.getElem?_cons_zero, execAll_eqz,
      hsize, beq_self_eq_true, execAll_cond, if_pos, execAll_const, execAll_nil, andThen_self,
      labelled_done, leave, List.take_succ_cons, List.take_zero, List.append_nil]
  have hlocals : request.arguments ++ List.replicate encodeRealloc.locals 0 =
      (firstLocals request).words := rfl
  unfold Function.call
  rw [hlocals, hbody]
  rfl

/-- The locals of a call once its block is found. -/
def placed (request : Request) (heap : ℕ) (scratch : Word) : Locals :=
  { firstLocals request with
    allocation := BitVec.ofNat 32 (request.allocation heap)
    stop := BitVec.ofNat 32 (request.stop heap)
    scratch := scratch }

theorem reserve_placed (hheap : HeapAt store heap) (halign : AlignOk request.align) :
    execAll limits fuel ⟨store, (firstLocals request).words, []⟩ reserve =
      if 2 ^ 32 ≤ request.stop heap then .trap store
      else .done ⟨store, (placed request heap 0).words, []⟩ := by
  have hfirst : store.globals[0]? = some (BitVec.ofNat 32 heap) := by
    rw [hheap.globals]
    rfl
  have hbound := hheap.heap_le
  have hheapWord : (BitVec.ofNat 32 heap).toNat = heap := by
    rw [BitVec.toNat_ofNat, Nat.mod_eq_of_lt (by omega)]
  have htoNat : (alignUp (BitVec.ofNat 32 heap) request.align).toNat = request.allocation heap := by
    rw [alignUp_toNat halign (by omega), hheapWord]
    rfl
  have hallocation : alignUp (BitVec.ofNat 32 heap) request.align =
      BitVec.ofNat 32 (request.allocation heap) := by
    rw [← htoNat, BitVec.ofNat_toNat, BitVec.setWidth_eq]
  have hstop : BitVec.ofNat 32 (request.allocation heap) + request.newSize =
      BitVec.ofNat 32 (request.stop heap) := by
    unfold Request.stop
    rw [BitVec.ofNat_add, BitVec.ofNat_toNat, BitVec.setWidth_eq]
  have hover : (BitVec.ofNat 32 (request.stop heap)).ult
      (BitVec.ofNat 32 (request.allocation heap)) = true ↔ 2 ^ 32 ≤ request.stop heap := by
    have hsize := request.newSize.isLt
    have hlt : request.allocation heap < 2 ^ 32 := by
      rw [← htoNat]
      exact BitVec.isLt _
    rw [BitVec.ult, decide_eq_true_eq, BitVec.toNat_ofNat, BitVec.toNat_ofNat,
      Nat.mod_eq_of_lt hlt]
    unfold Request.stop
    omega
  rw [reserve_eq hfirst]
  simp only [firstLocals, hallocation, hstop]
  by_cases hoverflow : 2 ^ 32 ≤ request.stop heap
  · rw [if_pos (hover.mpr hoverflow), if_pos hoverflow]
  · rw [if_neg fun hult => hoverflow (hover.mp hult), if_neg hoverflow]
    rfl

theorem growMemory_placed (hheap : HeapAt store heap) (hstop : request.stop heap < 2 ^ 32) :
    let scratch := BitVec.ofNat 32 store.pages * 65536
    let more := pagesFor (request.stop heap) - store.pages
    execAll limits fuel ⟨store, (placed request heap 0).words, []⟩ growMemory =
      if store.size < request.stop heap then
        if limits.allows store.pages more then
          .done ⟨store.grown more, (placed request heap scratch).words, []⟩
        else .trap store
      else .done ⟨store, (placed request heap scratch).words, []⟩ := by
  have hpages := hheap.pages
  have hword : (BitVec.ofNat 32 (request.stop heap)).toNat = request.stop heap := by
    rw [BitVec.toNat_ofNat, Nat.mod_eq_of_lt hstop]
  have hless : (BitVec.ofNat 32 store.pages * 65536).ult
      (BitVec.ofNat 32 (request.stop heap)) = true ↔ store.size < request.stop heap := by
    rw [BitVec.ult, decide_eq_true_eq, sizeWord_toNat hpages, hword]
  dsimp only
  rw [growMemory_eq (by omega)]
  dsimp only [placed]
  by_cases hshort : store.size < request.stop heap
  · have hmore := @missingPages_toNat store (BitVec.ofNat 32 (request.stop heap)) hpages
      (by rw [hword]; exact hshort)
    rw [hword] at hmore
    simp only [hless, if_pos hshort, hmore]
  · simp only [hless, if_neg hshort]

/-- A request is turned down before anything is changed. -/
theorem prepare_unmet (hheap : HeapAt store heap) (hunmet : Unmet limits store heap request) :
    execAll limits fuel ⟨store, (firstLocals request).words, []⟩
      (checkAlign ++ reserve ++ growMemory) = .trap store := by
  rw [execAll_append, execAll_append, checkAlign_eq]
  by_cases halign : AlignOk (firstLocals request).align
  · rw [if_pos halign, andThen_done, reserve_placed hheap halign]
    by_cases hoverflow : 2 ^ 32 ≤ request.stop heap
    · rw [if_pos hoverflow]
      rfl
    · rw [if_neg hoverflow, andThen_done, growMemory_placed hheap (by omega)]
      rcases hunmet with hbad | hover | ⟨hshort, hdenied⟩
      · exact absurd halign hbad
      · exact absurd hover hoverflow
      · rw [if_pos hshort, if_neg hdenied]
  · rw [if_neg halign]
    rfl

/-- A request that can be met finds its block. -/
theorem prepare_met (hheap : HeapAt store heap) (hmet : ¬ Unmet limits store heap request) :
    execAll limits fuel ⟨store, (firstLocals request).words, []⟩
      (checkAlign ++ reserve ++ growMemory) =
      .done ⟨if store.size < request.stop heap then
          store.grown (pagesFor (request.stop heap) - store.pages) else store,
        (placed request heap (BitVec.ofNat 32 store.pages * 65536)).words, []⟩ := by
  unfold Unmet at hmet
  rw [not_or, not_not, not_or, not_and, not_not, Nat.not_le] at hmet
  obtain ⟨halign, hstop, hallowed⟩ := hmet
  have hfirst : AlignOk (firstLocals request).align := halign
  rw [execAll_append, execAll_append, checkAlign_eq, if_pos hfirst, andThen_done,
    reserve_placed hheap halign, if_neg (Nat.not_le.mpr hstop), andThen_done,
    growMemory_placed hheap hstop]
  by_cases hshort : store.size < request.stop heap
  · rw [if_pos hshort, if_pos hshort, if_pos (hallowed hshort)]
  · rw [if_neg hshort, if_neg hshort]

theorem call_unmet (hsize : request.newSize ≠ 0) (hheap : HeapAt store heap)
    (hunmet : Unmet limits store heap request) :
    encodeRealloc.call limits fuel store request.arguments = .trapped store := by
  rw [call_eq hsize, execAll_append, execAll_append, execAll_append, prepare_unmet hheap hunmet]
  rfl

theorem le_size_reserved (store : Store) (stop : ℕ) : stop ≤ (reserved store stop).size := by
  have hsize : (reserved store stop).size =
      (if store.size < stop then store.grown (pagesFor stop - store.pages) else store).size := rfl
  rw [hsize]
  by_cases hshort : store.size < stop
  · rw [if_pos hshort]
    exact le_size_grown hshort
  · rw [if_neg hshort]
    exact Nat.not_lt.mp hshort

theorem reserved_pages (hheap : HeapAt store heap) (hmaximum : limits.maximum = 256)
    (hmet : ¬ Unmet limits store heap request) :
    (reserved store (request.stop heap)).pages ≤ 256 := by
  unfold Unmet at hmet
  rw [not_or, not_or, not_and] at hmet
  have hallowed := hmet.2.2
  unfold reserved
  dsimp only
  by_cases hshort : store.size < request.stop heap
  · rw [if_pos hshort]
    have hmore := (not_not.mp (hallowed hshort)).1
    rw [hmaximum] at hmore
    exact hmore
  · rw [if_neg hshort]
    exact hheap.pages

/-- The old bytes are copied, unless they are outside the memory. -/
theorem copyOld_placed {scratch : Word}
    (hinside : request.allocation heap + request.newSize.toNat ≤ store.size)
    (hsize : store.size < 2 ^ 32) (hfuel : request.newSize.toNat < fuel) :
    let result := execAll limits fuel ⟨store, (placed request heap scratch).words, []⟩ copyOld
    let copies := copied store request.old.toNat (request.allocation heap)
    (∃ final : Locals, result = .done ⟨copies request.kept, final.words, []⟩ ∧
      final.allocation = BitVec.ofNat 32 (request.allocation heap) ∧
      (0 < request.kept → request.old.toNat + request.kept ≤ store.size)) ∨
    result = .trap (copies (store.size - request.old.toNat)) ∧
      0 < request.kept ∧ store.size < request.old.toNat + request.kept := by
  dsimp only
  by_cases hnull : request.old = 0
  · have hkept : request.kept = 0 := if_pos hnull
    rw [copyOld_null hnull, hkept]
    exact Or.inl ⟨placed request heap scratch, rfl, rfl, fun hpos => absurd hpos (lt_irrefl 0)⟩
  · have hkept : request.kept = (copyCount request.oldSize request.newSize).toNat := by
      rw [copyCount_toNat]
      exact if_neg hnull
    have hle : request.kept ≤ request.newSize.toNat := by
      rw [hkept, copyCount_toNat]
      exact min_le_right _ _
    have htarget : request.allocation heap =
        (BitVec.ofNat 32 (request.allocation heap)).toNat := by
      rw [BitVec.toNat_ofNat, Nat.mod_eq_of_lt (by omega)]
    have hold := request.old.isLt
    have hrounds := @rounds_copy limits fuel store
      { placed request heap scratch with
        scratch := copyCount request.oldSize request.newSize, index := 0 }
      request.old.toNat (request.allocation heap) request.kept 0 fuel rfl htarget hkept
      (by omega) hsize (Nat.zero_le _) (Nat.zero_le _) (by omega) (by omega)
    rw [copyOld_given hnull]
    rcases hrounds with ⟨hdone, hread⟩ | ⟨htrap, hread⟩
    · refine Or.inl ⟨{ placed request heap scratch with
        scratch := copyCount request.oldSize request.newSize
        index := BitVec.ofNat 32 request.kept }, ?_, rfl, hread⟩
      exact congrArg (fun outcome => labelled 0 [] (labelled 0 [] outcome)) hdone
    · refine Or.inr ⟨?_, hread⟩
      exact congrArg (fun outcome => labelled 0 [] (labelled 0 [] outcome)) htrap

/-- A request that can be met returns its block, with the old bytes in it, unless the old
bytes are outside the memory. -/
theorem call_met (hsize : request.newSize ≠ 0) (hheap : HeapAt store heap)
    (hmaximum : limits.maximum = 256) (hmet : ¬ Unmet limits store heap request)
    (hfuel : request.newSize.toNat < fuel) :
    let call := encodeRealloc.call limits fuel store request.arguments
    let after := reserved store (request.stop heap)
    let copies := copied after request.old.toNat (request.allocation heap)
    (call = .returned (copies request.kept) [BitVec.ofNat 32 (request.allocation heap)] ∧
      (0 < request.kept → request.old.toNat + request.kept ≤ after.size)) ∨
    call = .trapped (copies (after.size - request.old.toNat)) ∧
      0 < request.kept ∧ after.size < request.old.toNat + request.kept := by
  have hglobals : (if store.size < request.stop heap then
      store.grown (pagesFor (request.stop heap) - store.pages) else store).globals =
      [BitVec.ofNat 32 heap] := by
    split
    · exact hheap.globals
    · exact hheap.globals
  have hinside := le_size_reserved store (request.stop heap)
  have hsmall : (reserved store (request.stop heap)).size < 2 ^ 32 := by
    have hpages := reserved_pages hheap hmaximum hmet
    unfold Store.size pageSize
    omega
  have hcopy := @copyOld_placed limits fuel (reserved store (request.stop heap)) heap request
    (BitVec.ofNat 32 store.pages * 65536) hinside hsmall hfuel
  dsimp only
  rw [call_eq hsize, execAll_append, execAll_append, execAll_append, prepare_met hheap hmet,
    andThen_done, commit_eq hglobals, andThen_done]
  rcases hcopy with ⟨⟨old, oldSize, align, newSize, allocation, stop, scratch, index⟩, hdone,
    hallocation, hread⟩ | ⟨htrap, hread⟩
  · refine Or.inl ⟨?_, hread⟩
    unfold reserved at hdone
    dsimp only [placed] at hdone hallocation ⊢
    rw [hdone, andThen_done, hallocation]
    unfold Locals.words
    rw [execAll_localGet]
    simp only [List.getElem?_cons_succ, List.getElem?_cons_zero, execAll_nil, labelled_done,
      leave, List.take_succ_cons, List.take_zero, List.append_nil]
    rfl
  · refine Or.inr ⟨?_, hread⟩
    unfold reserved at htrap
    dsimp only [placed] at htrap ⊢
    rw [htrap]
    rfl

end Call

end Krit.GuestAllocator
