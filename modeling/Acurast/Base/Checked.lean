import Mathlib.Tactic.Common
import Mathlib.Algebra.Order.Ring.Nat
import Mathlib.Algebra.Order.Floor.Div
import Mathlib.Tactic.Ring

/-! Unsigned fixed-width arithmetic on naturals: the checked operations answer only where the
exact result fits, the saturating ones stop at the largest value. -/

namespace Base

def maxOf (w : ℕ) : ℕ := 2 ^ w - 1

def checkedAdd (w a b : ℕ) : Option ℕ := if a + b < 2 ^ w then some (a + b) else none

def checkedSub (a b : ℕ) : Option ℕ := if b ≤ a then some (a - b) else none

def checkedMul (w a b : ℕ) : Option ℕ := if a * b < 2 ^ w then some (a * b) else none

def checkedDiv (a b : ℕ) : Option ℕ := if b = 0 then none else some (a / b)

def saturatingAdd (w a b : ℕ) : ℕ := min (a + b) (maxOf w)

def saturatingMul (w a b : ℕ) : ℕ := min (a * b) (maxOf w)

def saturatedInto (w a : ℕ) : ℕ := min a (maxOf w)

variable {w a b c : ℕ}

theorem checkedAdd_eq_some : checkedAdd w a b = some c ↔ a + b = c ∧ a + b < 2 ^ w := by
  unfold checkedAdd
  split_ifs with h <;> simp [h]

theorem checkedSub_eq_some : checkedSub a b = some c ↔ b ≤ a ∧ a - b = c := by
  unfold checkedSub
  split_ifs with h <;> simp [h]

theorem checkedMul_eq_some : checkedMul w a b = some c ↔ a * b = c ∧ a * b < 2 ^ w := by
  unfold checkedMul
  split_ifs with h <;> simp [h]

theorem checkedDiv_eq_some : checkedDiv a b = some c ↔ b ≠ 0 ∧ a / b = c := by
  unfold checkedDiv
  split_ifs with h <;> simp [h]

theorem saturatedInto_le : saturatedInto w a ≤ a := min_le_left _ _

theorem saturatingAdd_le : saturatingAdd w a b ≤ a + b := min_le_left _ _

theorem saturatingMul_le : saturatingMul w a b ≤ a * b := min_le_left _ _

theorem saturatingAdd_eq (h : a + b < 2 ^ w) : saturatingAdd w a b = a + b := by
  unfold saturatingAdd maxOf
  omega

theorem saturatingMul_eq (h : a * b < 2 ^ w) : saturatingMul w a b = a * b := by
  unfold saturatingMul maxOf
  omega

theorem saturatingAdd_eq_of_lt (h : saturatingAdd w a b < maxOf w) : saturatingAdd w a b = a + b := by
  unfold saturatingAdd at h ⊢
  omega

theorem lt_of_saturatingAdd_lt (h : saturatingAdd w a b < maxOf w) : a < maxOf w := by
  unfold saturatingAdd at h
  omega

theorem saturatedInto_eq_self (h : a < 2 ^ w) : saturatedInto w a = a := by
  unfold saturatedInto maxOf
  omega

end Base
