import Mathlib.Tactic

/-!
# Machine words

Unsigned 64-bit arithmetic on natural numbers, as programs use it: checked, or
saturating at the largest word.
-/

namespace Machine

/-- The number of 64-bit words. -/
def wordCount : ℕ := 18446744073709551616

def checkedAdd (left right : ℕ) : Option ℕ :=
  if left + right < wordCount then some (left + right) else none

def checkedMul (left right : ℕ) : Option ℕ :=
  if left * right < wordCount then some (left * right) else none

def saturatingAdd (left right : ℕ) : ℕ := min (left + right) (wordCount - 1)

theorem checkedAdd_eq_some {left right sum : ℕ} (hadd : checkedAdd left right = some sum) :
    sum = left + right := by
  unfold checkedAdd at hadd
  split at hadd
  · rw [Option.some.injEq] at hadd
    exact hadd.symm
  · cases hadd

theorem checkedMul_eq_some {left right product : ℕ} (hmul : checkedMul left right = some product) :
    product = left * right := by
  unfold checkedMul at hmul
  split at hmul
  · rw [Option.some.injEq] at hmul
    exact hmul.symm
  · cases hmul

theorem saturatingAdd_saturatingAdd (start left right : ℕ) :
    saturatingAdd (saturatingAdd start left) right = saturatingAdd start (left + right) := by
  unfold saturatingAdd
  omega

theorem saturatingAdd_zero {start : ℕ} (hstart : start < wordCount) :
    saturatingAdd start 0 = start := by
  unfold saturatingAdd
  omega

theorem saturatingAdd_lt (left right : ℕ) : saturatingAdd left right < wordCount := by
  unfold saturatingAdd wordCount
  omega

theorem saturatingAdd_of_le {left right bound : ℕ} (hle : saturatingAdd left right ≤ bound)
    (hbound : bound < wordCount - 1) : saturatingAdd left right = left + right := by
  unfold saturatingAdd at hle ⊢
  omega

theorem saturatingAdd_one {left bound : ℕ} (hlt : left < bound) (hbound : bound < wordCount - 1) :
    saturatingAdd left 1 = left + 1 := by
  unfold saturatingAdd
  rw [min_eq_left]
  exact Nat.le_of_lt (Nat.lt_of_le_of_lt hlt hbound)

end Machine
