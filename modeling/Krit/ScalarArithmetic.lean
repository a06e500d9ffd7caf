import Krit.ScalarCompiler

/-!
# The checked sequences compute checked arithmetic

Every emitted arithmetic sequence stores the mathematical result where it fits
64 bits, and otherwise traps the way the checked operation fails: overflow for
`K4005`, division by zero for `K4004`.  The lemmas about bit vectors come
first; the sequences are then run symbolically.
-/

namespace Krit

open Wasm

/-- The bits of an integer. -/
def word (value : ℤ) : BitVec 64 := BitVec.ofInt 64 value

def InI64 (value : ℤ) : Prop := i64Min ≤ value ∧ value ≤ i64Max

instance (value : ℤ) : Decidable (InI64 value) :=
  inferInstanceAs (Decidable (_ ∧ _))

theorem i64TryFrom_of_inI64 {value : ℤ} (hvalue : InI64 value) :
    i64TryFrom value = some value :=
  if_pos hvalue

theorem i64TryFrom_of_not_inI64 {value : ℤ} (hvalue : ¬ InI64 value) :
    i64TryFrom value = none :=
  if_neg hvalue

theorem inI64_of_i64TryFrom {value other : ℤ} (hvalue : i64TryFrom value = some other) :
    other = value ∧ InI64 value := by
  unfold i64TryFrom at hvalue
  split at hvalue
  · rename_i hrange
    exact ⟨(Option.some.inj hvalue).symm, hrange⟩
  · cases hvalue

theorem toInt_inI64 (bits : BitVec 64) : InI64 bits.toInt := by
  have hlower := BitVec.le_toInt bits
  have hupper := @BitVec.toInt_lt 64 bits
  unfold InI64 i64Min i64Max
  omega

theorem toInt_word {value : ℤ} (hvalue : InI64 value) : (word value).toInt = value := by
  unfold InI64 i64Min i64Max at hvalue
  exact BitVec.toInt_ofInt_eq_self (by decide) (by norm_num; omega) (by norm_num; omega)

theorem word_toInt (bits : BitVec 64) : word bits.toInt = bits :=
  BitVec.ofInt_toInt

theorem word_inj {left right : ℤ} (hleft : InI64 left) (hright : InI64 right) :
    word left = word right ↔ left = right := by
  constructor
  · intro heq
    rw [← toInt_word hleft, ← toInt_word hright, heq]
  · rintro rfl
    rfl

/-- Reduction to the signed range changes an integer by a multiple of `2 ^ 64`. -/
theorem bmod_eq_add (value : ℤ) :
    ∃ turns : ℤ, value.bmod (2 ^ 64) = value + turns * 2 ^ 64 := by
  refine ⟨-(value.bdiv (2 ^ 64)), ?_⟩
  have h := Int.bmod_add_bdiv value (2 ^ 64)
  push_cast at h ⊢
  linarith

theorem bmod_of_inI64 {value : ℤ} (hvalue : InI64 value) :
    value.bmod (2 ^ 64) = value := by
  unfold InI64 i64Min i64Max at hvalue
  exact Int.bmod_eq_of_le (by norm_num; omega) (by norm_num; omega)

theorem word_add (left right : ℤ) : word left + word right = word (left + right) :=
  (BitVec.ofInt_add left right).symm

theorem word_sub (left right : ℤ) : word left - word right = word (left - right) := by
  apply BitVec.eq_of_toInt_eq
  simp [word]

theorem word_mul (left right : ℤ) : word left * word right = word (left * right) :=
  (BitVec.ofInt_mul left right).symm

theorem word_zero : word 0 = 0#64 := rfl

theorem word_i64Min : word i64Min = BitVec.intMin 64 := by
  decide

theorem word_neg_one : word (-1) = -1#64 := by
  decide

theorem inI64_zero : InI64 0 := by decide

theorem inI64_i64Min : InI64 i64Min := by decide

theorem inI64_neg_one : InI64 (-1) := by decide

/-- A word holds its integer up to turns of `2 ^ 64`, in the signed range. -/
theorem toInt_word_turns (value : ℤ) :
    ∃ turns : ℤ, (word value).toInt = value + turns * 2 ^ 64 ∧
      InI64 (value + turns * 2 ^ 64) := by
  obtain ⟨turns, hturns⟩ := bmod_eq_add value
  have hvalue : (word value).toInt = value + turns * 2 ^ 64 := by
    rw [← hturns]
    exact BitVec.toInt_ofInt _
  exact ⟨turns, hvalue, hvalue ▸ toInt_inI64 _⟩

/-- The sign test of the addition sequence. -/
theorem add_overflow_test {left right : ℤ} (hleft : InI64 left) (hright : InI64 right) :
    (((word left ^^^ word (left + right)) &&& (word right ^^^ word (left + right))).slt
      (word 0)) = decide (¬ InI64 (left + right)) := by
  obtain ⟨turns, hsum, hrange⟩ := toInt_word_turns (left + right)
  rw [word_zero, BitVec.slt_zero_eq_msb, Bool.eq_iff_iff]
  simp only [BitVec.msb_and, BitVec.msb_xor]
  simp only [BitVec.msb_eq_toInt, toInt_word hleft, toInt_word hright, hsum, Bool.and_eq_true,
    bne_iff_ne, ne_eq, decide_eq_decide, decide_eq_true_eq]
  unfold InI64 i64Min i64Max at *
  omega

/-- The sign test of the subtraction sequence. -/
theorem sub_overflow_test {left right : ℤ} (hleft : InI64 left) (hright : InI64 right) :
    (((word left ^^^ word right) &&& (word left ^^^ word (left - right))).slt (word 0)) =
      decide (¬ InI64 (left - right)) := by
  obtain ⟨turns, hdifference, hrange⟩ := toInt_word_turns (left - right)
  rw [word_zero, BitVec.slt_zero_eq_msb, Bool.eq_iff_iff]
  simp only [BitVec.msb_and, BitVec.msb_xor]
  simp only [BitVec.msb_eq_toInt, toInt_word hleft, toInt_word hright, hdifference,
    Bool.and_eq_true, bne_iff_ne, ne_eq, decide_eq_decide, decide_eq_true_eq]
  unfold InI64 i64Min i64Max at *
  omega

/-- A remainder is smaller than its divisor, so a quotient that equals `left`
leaves no room for a turn. -/
theorem tdiv_turns_ne {left right turns : ℤ} (hright : InI64 right) (hnonzero : right ≠ 0)
    (hturns : turns ≠ 0) :
    (left * right + turns * 2 ^ 64).tdiv right ≠ left := by
  intro hquotient
  have hdecompose := Int.mul_tdiv_add_tmod (left * right + turns * 2 ^ 64) right
  rw [hquotient] at hdecompose
  have hremainder : ((left * right + turns * 2 ^ 64).tmod right).natAbs < right.natAbs := by
    rw [Int.natAbs_tmod]
    exact Nat.mod_lt _ (Int.natAbs_pos.mpr hnonzero)
  have hmod : (left * right + turns * 2 ^ 64).tmod right = turns * 2 ^ 64 := by
    linarith [mul_comm left right]
  rw [hmod] at hremainder
  unfold InI64 i64Min i64Max at hright
  omega

/-- Only the least integer divided by minus one leaves the range. -/
theorem tdiv_inI64 {left right : ℤ} (hleft : InI64 left) (hzero : right ≠ 0)
    (hoverflow : ¬ (left = i64Min ∧ right = -1)) : InI64 (left.tdiv right) := by
  by_cases hone : right = 1
  · subst hone
    simpa using hleft
  · by_cases hminus : right = -1
    · subst hminus
      have hne : left ≠ i64Min := fun heq => hoverflow ⟨heq, rfl⟩
      simp only [Int.tdiv_neg, Int.tdiv_one]
      unfold InI64 i64Min i64Max at *
      omega
    · have hsmall : (left.tdiv right).natAbs ≤ left.natAbs / 2 := by
        rw [Int.natAbs_tdiv]
        exact Nat.div_le_div_left (by omega) (by decide)
      unfold InI64 i64Min i64Max at *
      omega

theorem tmod_inI64 (left : ℤ) {right : ℤ} (hright : InI64 right) (hzero : right ≠ 0) :
    InI64 (left.tmod right) := by
  have hsmall : (left.tmod right).natAbs < right.natAbs := by
    rw [Int.natAbs_tmod]
    exact Nat.mod_lt _ (Int.natAbs_pos.mpr hzero)
  unfold InI64 i64Min i64Max at *
  omega

/-- Signed division of words is checked division. -/
theorem divS_word {left right : ℤ} (hleft : InI64 left) (hright : InI64 right) :
    divS (word left) (word right) =
      if right = 0 then .error .integerDivisionByZero
      else if InI64 (left.tdiv right) then .ok (word (left.tdiv right))
      else .error .integerOverflow := by
  unfold divS
  by_cases hzero : right = 0
  · subst hzero
    rfl
  · have hwordZero : word right ≠ 0 := by
      intro heq
      exact hzero ((word_inj hright inI64_zero).mp heq)
    rw [if_neg hwordZero, if_neg hzero]
    by_cases hoverflow : left = i64Min ∧ right = -1
    · obtain ⟨rfl, rfl⟩ := hoverflow
      decide
    · have hwords : ¬ (word left = BitVec.intMin 64 ∧ word right = -1) := by
        rintro ⟨hleftWord, hrightWord⟩
        apply hoverflow
        refine ⟨(word_inj hleft inI64_i64Min).mp (hleftWord.trans word_i64Min.symm), ?_⟩
        exact (word_inj hright inI64_neg_one).mp (hrightWord.trans word_neg_one.symm)
      have hrange := tdiv_inI64 hleft hzero hoverflow
      rw [if_neg hwords, if_pos hrange]
      congr 1
      apply BitVec.eq_of_toInt_eq
      rw [toInt_word hrange, BitVec.toInt_sdiv, toInt_word hleft, toInt_word hright,
        bmod_of_inI64 hrange]

theorem remS_word {left right : ℤ} (hleft : InI64 left) (hright : InI64 right) :
    remS (word left) (word right) =
      if right = 0 then .error .integerDivisionByZero else .ok (word (left.tmod right)) := by
  unfold remS
  by_cases hzero : right = 0
  · subst hzero
    rfl
  · have hwordZero : word right ≠ 0 := by
      intro heq
      exact hzero ((word_inj hright inI64_zero).mp heq)
    rw [if_neg hwordZero, if_neg hzero]
    congr 1
    rw [← word_toInt ((word left).srem (word right)), BitVec.toInt_srem, toInt_word hleft,
      toInt_word hright]

/-! ## Running the sequences -/

/-- The trap that stands for an arithmetic failure. -/
def trapOf : ErrorCode → Trap
  | .k4004 => .integerDivisionByZero
  | _ => .integerOverflow

section Sequences

variable {σ : Type} {machine : Wasm.Module} {invoke : Invoke σ}

/-- The end of a checked sequence: the result stored, or the trap. -/
def storeChecked (locals : List Wasm.Value) (destination : ℕ) (result : Except ErrorCode ℤ) :
    Wasm.Run σ Frame :=
  match result with
  | .ok value => pure ⟨locals.set destination (.i64 (word value)), []⟩
  | .error code => Interp.Run.fail (trapOf code)

@[simp] theorem exec_i64Const {frame : Frame} {value : ℤ} :
    exec machine invoke frame (i64Const value) =
      pure ⟨frame.locals, .i64 (word value) :: frame.stack⟩ := by
  simp only [i64Const, exec_const, word]

theorem exec_trapIntegerOverflowIf {locals stack : List Wasm.Value} {condition : Bool} :
    exec machine invoke ⟨locals, bool32 condition :: stack⟩ trapIntegerOverflowIf =
      if condition then Interp.Run.fail .integerOverflow else pure ⟨locals, stack⟩ := by
  unfold trapIntegerOverflowIf
  rw [exec_cond_bool]
  cases condition with
  | false => simp
  | true =>
      have hdivide : divS (word i64Min) (word (-1)) = .error .integerOverflow := by decide
      simp [exec_numeric, Numeric.apply, hdivide, Except.map]

theorem exec_i64Eq {locals stack : List Wasm.Value} {left right : BitVec 64} :
    exec machine invoke ⟨locals, .i64 right :: .i64 left :: stack⟩ (.numeric .i64Eq) =
      pure ⟨locals, bool32 (left == right) :: stack⟩ := by
  simp only [exec_numeric, Numeric.apply, Interp.Run.ofExcept_ok, Interp.Run.pure_bind]

theorem exec_i32And_bool32 {locals stack : List Wasm.Value} {left right : Bool} :
    exec machine invoke ⟨locals, bool32 right :: bool32 left :: stack⟩ (.numeric .i32And) =
      pure ⟨locals, bool32 (left && right) :: stack⟩ := by
  cases left <;> cases right <;> rw [exec_numeric] <;> rfl

/-- Two operands in locals, and a destination apart from them. -/
structure Operands (locals : List Wasm.Value) (leftLocal rightLocal destination : ℕ)
    (left right : ℤ) : Prop where
  leftStored : locals[leftLocal]? = some (.i64 (word left))
  rightStored : locals[rightLocal]? = some (.i64 (word right))
  destinationBound : destination < locals.length
  leftApart : destination ≠ leftLocal
  rightApart : destination ≠ rightLocal
  leftRange : InI64 left
  rightRange : InI64 right

variable {locals : List Wasm.Value} {leftLocal rightLocal destination : ℕ} {left right : ℤ}

/-! The steps of a sequence on such locals. -/

section Steps

variable {stack : List Wasm.Value}

theorem Operands.exec_left
    (hoperands : Operands locals leftLocal rightLocal destination left right) :
    exec machine invoke ⟨locals, stack⟩ (.localGet leftLocal) =
      pure ⟨locals, .i64 (word left) :: stack⟩ :=
  exec_localGet hoperands.leftStored

theorem Operands.exec_right
    (hoperands : Operands locals leftLocal rightLocal destination left right) :
    exec machine invoke ⟨locals, stack⟩ (.localGet rightLocal) =
      pure ⟨locals, .i64 (word right) :: stack⟩ :=
  exec_localGet hoperands.rightStored

theorem Operands.exec_store
    (hoperands : Operands locals leftLocal rightLocal destination left right) (value : Wasm.Value) :
    exec machine invoke ⟨locals, value :: stack⟩ (.localSet destination) =
      pure ⟨locals.set destination value, stack⟩ :=
  exec_localSet hoperands.destinationBound

theorem Operands.exec_left_kept
    (hoperands : Operands locals leftLocal rightLocal destination left right) (value : Wasm.Value) :
    exec machine invoke ⟨locals.set destination value, stack⟩ (.localGet leftLocal) =
      pure ⟨locals.set destination value, .i64 (word left) :: stack⟩ := by
  apply exec_localGet
  rw [List.getElem?_set_ne hoperands.leftApart]
  exact hoperands.leftStored

theorem Operands.exec_right_kept
    (hoperands : Operands locals leftLocal rightLocal destination left right) (value : Wasm.Value) :
    exec machine invoke ⟨locals.set destination value, stack⟩ (.localGet rightLocal) =
      pure ⟨locals.set destination value, .i64 (word right) :: stack⟩ := by
  apply exec_localGet
  rw [List.getElem?_set_ne hoperands.rightApart]
  exact hoperands.rightStored

theorem Operands.exec_result
    (hoperands : Operands locals leftLocal rightLocal destination left right) (value : Wasm.Value) :
    exec machine invoke ⟨locals.set destination value, stack⟩ (.localGet destination) =
      pure ⟨locals.set destination value, value :: stack⟩ :=
  exec_localGet (List.getElem?_set_self hoperands.destinationBound)

end Steps

/-- A checked result, from its range. -/
theorem storeChecked_orOverflow (value : ℤ) :
    (storeChecked locals destination (orOverflow (i64TryFrom value)) : Wasm.Run σ Frame) =
      if decide (¬ InI64 value) = true then Interp.Run.fail .integerOverflow
      else pure ⟨locals.set destination (.i64 (word value)), []⟩ := by
  by_cases hrange : InI64 value
  · simp [i64TryFrom_of_inI64 hrange, orOverflow, storeChecked, hrange]
  · simp [i64TryFrom_of_not_inI64 hrange, orOverflow, storeChecked, trapOf, hrange]

theorem execAll_addCode
    (hoperands : Operands locals leftLocal rightLocal destination left right) :
    execAll machine invoke ⟨locals, []⟩
        (addCode [.localGet leftLocal] [.localGet rightLocal] [.localGet destination]
          [.localSet destination]) =
      storeChecked locals destination (orOverflow (checkedAdd left right)) := by
  simp only [addCode, List.cons_append, List.nil_append, execAll_cons, execAll_nil,
    hoperands.exec_left, hoperands.exec_right, hoperands.exec_store, hoperands.exec_left_kept,
    hoperands.exec_right_kept, hoperands.exec_result,
    exec_i64Const, exec_numeric, Numeric.apply, Interp.Run.ofExcept_ok,
    Interp.Run.pure_bind, exec_trapIntegerOverflowIf, word_add,
    add_overflow_test hoperands.leftRange hoperands.rightRange]
  rw [checkedAdd, storeChecked_orOverflow]
  split <;> simp

theorem execAll_subtractCode
    (hoperands : Operands locals leftLocal rightLocal destination left right) :
    execAll machine invoke ⟨locals, []⟩
        (subtractCode [.localGet leftLocal] [.localGet rightLocal] [.localGet destination]
          [.localSet destination]) =
      storeChecked locals destination (orOverflow (checkedSub left right)) := by
  simp only [subtractCode, List.cons_append, List.nil_append, execAll_cons, execAll_nil,
    hoperands.exec_left, hoperands.exec_right, hoperands.exec_store, hoperands.exec_left_kept,
    hoperands.exec_right_kept, hoperands.exec_result, exec_i64Const, exec_numeric,
    Numeric.apply, Interp.Run.ofExcept_ok, Interp.Run.pure_bind, exec_trapIntegerOverflowIf,
    word_sub, sub_overflow_test hoperands.leftRange hoperands.rightRange]
  rw [checkedSub, storeChecked_orOverflow]
  split <;> simp

/-- The test of the multiplication sequence: the wrapped product divided by a
non-zero right operand gives back the left one exactly when nothing was lost. -/
theorem multiply_overflow_test (hleft : InI64 left) (hright : InI64 right)
    (hzero : right ≠ 0) :
    divS (word (left * right)) (word right) =
      if InI64 (left * right) then .ok (word left)
      else if (word (left * right)).toInt = i64Min ∧ right = -1 then .error .integerOverflow
      else .ok (word ((word (left * right)).toInt.tdiv right)) := by
  obtain ⟨turns, hproduct, hrange⟩ := toInt_word_turns (left * right)
  have hdivide := divS_word (toInt_inI64 (word (left * right))) hright
  rw [word_toInt, if_neg hzero] at hdivide
  rw [hdivide]
  by_cases hfits : InI64 (left * right)
  · have hexact : (left * right).tdiv right = left := Int.mul_tdiv_cancel left hzero
    rw [toInt_word hfits, hexact, if_pos hleft, if_pos hfits]
  · rw [if_neg hfits]
    by_cases hoverflow : (word (left * right)).toInt = i64Min ∧ right = -1
    · rw [if_pos hoverflow]
      obtain ⟨hleast, rfl⟩ := hoverflow
      rw [hleast]
      decide
    · rw [if_neg hoverflow,
        if_pos (tdiv_inI64 (toInt_inI64 (word (left * right))) hzero hoverflow)]

theorem multiply_quotient_ne (hright : InI64 right) (hzero : right ≠ 0)
    (hfits : ¬ InI64 (left * right)) :
    (word (left * right)).toInt.tdiv right ≠ left := by
  obtain ⟨turns, hproduct, hrange⟩ := toInt_word_turns (left * right)
  rw [hproduct]
  apply tdiv_turns_ne hright hzero
  rintro rfl
  apply hfits
  simpa using hrange

theorem execAll_multiplyCode
    (hoperands : Operands locals leftLocal rightLocal destination left right) :
    execAll machine invoke ⟨locals, []⟩
        (multiplyCode [.localGet leftLocal] [.localGet rightLocal] [.localGet destination]
          [.localSet destination]) =
      storeChecked locals destination (orOverflow (checkedMul left right)) := by
  have hleft := hoperands.leftRange
  have hright := hoperands.rightRange
  simp only [multiplyCode, List.cons_append, List.nil_append, execAll_cons, execAll_nil,
    hoperands.exec_left, hoperands.exec_right, hoperands.exec_store, hoperands.exec_right_kept,
    hoperands.exec_result, exec_numeric, Numeric.apply, Interp.Run.ofExcept_ok,
    Interp.Run.pure_bind, exec_cond_bool, word_mul]
  rw [checkedMul, storeChecked_orOverflow]
  by_cases hzero : right = 0
  · subst hzero
    simp [word, InI64, i64Min, i64Max]
  · have hwordZero : (word right == 0) = false := by
      rw [beq_eq_false_iff_ne]
      exact fun heq => hzero ((word_inj hright inI64_zero).mp heq)
    rw [hwordZero, multiply_overflow_test hleft hright hzero]
    by_cases hfits : InI64 (left * right)
    · simp [hfits, Except.map, exec_numeric, Numeric.apply, exec_trapIntegerOverflowIf,
        hoperands.exec_left_kept]
    · by_cases hoverflow : (word (left * right)).toInt = i64Min ∧ right = -1
      · rw [if_neg hfits, if_pos hoverflow]
        simp [hfits, Except.map]
      · have hne := multiply_quotient_ne hright hzero hfits
        have hquotient : InI64 ((word (left * right)).toInt.tdiv right) :=
          tdiv_inI64 (toInt_inI64 _) hzero hoverflow
        have hwords : (word ((word (left * right)).toInt.tdiv right) != word left) = true := by
          rw [bne_iff_ne]
          exact fun heq => hne ((word_inj hquotient hleft).mp heq)
        simp [hfits, hoverflow, Except.map, exec_numeric, Numeric.apply,
          exec_trapIntegerOverflowIf, hoperands.exec_left_kept, hwords]

theorem execAll_divideCode
    (hoperands : Operands locals leftLocal rightLocal destination left right) :
    execAll machine invoke ⟨locals, []⟩
        (divideCode [.localGet leftLocal] [.localGet rightLocal] [.localSet destination]) =
      storeChecked locals destination
        (if right = 0 then .error .k4004 else orOverflow (checkedDiv left right)) := by
  simp only [divideCode, List.cons_append, List.nil_append, execAll_cons, execAll_nil,
    hoperands.exec_left, hoperands.exec_right, exec_numeric, Numeric.apply,
    Interp.Run.pure_bind, divS_word hoperands.leftRange hoperands.rightRange]
  by_cases hzero : right = 0
  · simp [hzero, Except.map, storeChecked, trapOf]
  · rw [if_neg hzero, if_neg hzero, checkedDiv, storeChecked_orOverflow]
    by_cases hfits : InI64 (left.tdiv right)
    · simp [hfits, Except.map, hoperands.exec_store]
    · simp [hfits, Except.map]

theorem execAll_remainderCode
    (hoperands : Operands locals leftLocal rightLocal destination left right) :
    execAll machine invoke ⟨locals, []⟩
        (remainderCode [.localGet leftLocal] [.localGet rightLocal] [.localSet destination]) =
      storeChecked locals destination
        (if right = 0 then .error .k4004 else orOverflow (checkedRem left right)) := by
  have hleft := hoperands.leftRange
  have hright := hoperands.rightRange
  have hleast : (word left == word i64Min) = decide (left = i64Min) := by
    rw [Bool.eq_iff_iff, beq_iff_eq, decide_eq_true_iff]
    exact word_inj hleft inI64_i64Min
  have hminus : (word right == word (-1)) = decide (right = -1) := by
    rw [Bool.eq_iff_iff, beq_iff_eq, decide_eq_true_iff]
    exact word_inj hright inI64_neg_one
  simp only [remainderCode, List.cons_append, List.nil_append, execAll_cons, execAll_nil,
    hoperands.exec_left, hoperands.exec_right, exec_i64Const, exec_i64Eq, exec_i32And_bool32,
    Interp.Run.pure_bind, exec_trapIntegerOverflowIf, hleast, hminus]
  by_cases hoverflow : left = i64Min ∧ right = -1
  · obtain ⟨rfl, rfl⟩ := hoverflow
    simp [checkedRem, orOverflow, storeChecked, trapOf]
  · have htest : (decide (left = i64Min) && decide (right = -1)) = false := by
      simpa using hoverflow
    simp only [htest, Bool.false_eq_true, if_false, Interp.Run.pure_bind, hoperands.exec_left,
      hoperands.exec_right, exec_numeric, Numeric.apply, remS_word hleft hright]
    by_cases hzero : right = 0
    · simp [hzero, Except.map, storeChecked, trapOf]
    · have hfits := tmod_inI64 left hright hzero
      simp [hzero, Except.map, hoperands.exec_store, checkedRem, hoverflow,
        i64TryFrom_of_inI64 hfits, orOverflow, storeChecked]

theorem execAll_negateCode {operandLocal : ℕ} {value : ℤ}
    (hoperands : Operands locals operandLocal operandLocal destination value value) :
    execAll machine invoke ⟨locals, []⟩
        (negateCode [.localGet operandLocal] [.localSet destination]) =
      storeChecked locals destination (orOverflow (checkedNeg value)) := by
  have hvalue := hoperands.leftRange
  have hleast : (word value == word i64Min) = decide (value = i64Min) := by
    rw [Bool.eq_iff_iff, beq_iff_eq, decide_eq_true_iff]
    exact word_inj hvalue inI64_i64Min
  simp only [negateCode, List.cons_append, List.nil_append, execAll_cons, execAll_nil,
    hoperands.exec_left, exec_i64Const, exec_i64Eq, Interp.Run.pure_bind,
    exec_trapIntegerOverflowIf, hleast]
  rw [checkedNeg, storeChecked_orOverflow]
  by_cases hoverflow : value = i64Min
  · subst hoverflow
    simp [InI64, i64Min, i64Max]
  · have hfits : InI64 (-value) := by
      unfold InI64 i64Min i64Max at *
      omega
    simp [hoverflow, hfits, hoperands.exec_left, exec_numeric, Numeric.apply,
      hoperands.exec_store, word_sub]

/-- Each arithmetic sequence agrees with checked arithmetic on all operands. -/
theorem execAll_arithmeticCode {operator : BinaryOperator} {result : Except ErrorCode ℤ}
    (hoperands : Operands locals leftLocal rightLocal destination left right)
    (harithmetic : integerArithmetic operator left right = some result) :
    execAll machine invoke ⟨locals, []⟩
        (FunctionContext.arithmeticCode operator [.localGet leftLocal] [.localGet rightLocal]
          [.localGet destination] [.localSet destination]) =
      storeChecked locals destination result := by
  cases operator <;> simp only [integerArithmetic, Option.some.injEq, reduceCtorEq] at harithmetic
  case add =>
    subst harithmetic
    exact execAll_addCode hoperands
  case subtract =>
    subst harithmetic
    exact execAll_subtractCode hoperands
  case multiply =>
    subst harithmetic
    exact execAll_multiplyCode hoperands
  case divide =>
    subst harithmetic
    exact execAll_divideCode hoperands
  case remainder =>
    subst harithmetic
    exact execAll_remainderCode hoperands

/-- The ordering operators store the outcome of the comparison. -/
theorem execAll_orderingCode {operator : BinaryOperator} {outcome : Bool}
    (hoperands : Operands locals leftLocal rightLocal destination left right)
    (hordering : orderingResult operator (compareInts left right) = some outcome) :
    execAll machine invoke ⟨locals, []⟩
        (FunctionContext.arithmeticCode operator [.localGet leftLocal] [.localGet rightLocal]
          [.localGet destination] [.localSet destination]) =
      pure ⟨locals.set destination (bool32 outcome), []⟩ := by
  have hleft := toInt_word hoperands.leftRange
  have hright := toInt_word hoperands.rightRange
  cases operator <;> simp only [orderingResult, Option.some.injEq, reduceCtorEq] at hordering
  all_goals
    subst hordering
    simp only [FunctionContext.arithmeticCode, comparisonCode, List.cons_append, List.nil_append,
      execAll_cons, execAll_nil, hoperands.exec_left, hoperands.exec_right, exec_numeric,
      Numeric.apply, Interp.Run.ofExcept_ok, Interp.Run.pure_bind, hoperands.exec_store,
      BitVec.slt_eq_decide, BitVec.sle_eq_decide, hleft, hright]
    congr 4
    unfold compareInts
    rcases lt_trichotomy left right with hlt | heq | hgt
    · simp [hlt, hlt.le, Ordering.isLT, Ordering.isLE, Ordering.isGT, Ordering.isGE]
    · simp [heq, Ordering.isLT, Ordering.isLE, Ordering.isGT, Ordering.isGE]
    · simp [hgt, hgt.le, hgt.not_gt, hgt.ne', Ordering.isLT, Ordering.isLE, Ordering.isGT,
        Ordering.isGE]

end Sequences

end Krit
