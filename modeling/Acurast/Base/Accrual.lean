import Mathlib.Tactic.Common
import Mathlib.Tactic.Ring
import Mathlib.Algebra.Order.Ring.Nat
import Mathlib.Tactic.Linarith

/-! Lazy shares of a common pool. The pool keeps an index, the amount credited so far for one unit of
weight scaled by a precision `P`; a member keeps its weight and its debt. What it can still draw is the
floor of `weight * index / P` less the debt. -/

namespace Base.Accrual

variable (P : ℕ)

def due (weight index debt : ℕ) : ℕ := weight * index / P - debt

def claim (weight index debt : ℕ) : ℕ := weight * index - P * debt

def ceilDebt (weight index : ℕ) : ℕ := (weight * index + P - 1) / P

variable {P : ℕ}

theorem mul_due_le_claim (w i d : ℕ) : P * due P w i d ≤ claim P w i d := by
  unfold due claim
  rw [Nat.mul_sub]
  exact Nat.sub_le_sub_right (Nat.mul_div_le _ _) _

theorem le_mul_ceilDebt (hP : 0 < P) (w i : ℕ) : w * i ≤ P * ceilDebt P w i := by
  unfold ceilDebt
  have h := Nat.lt_mul_div_succ (w * i + P - 1) hP
  rw [Nat.mul_succ] at h
  omega

theorem claim_ceilDebt (hP : 0 < P) (w i : ℕ) : claim P w i (ceilDebt P w i) = 0 :=
  Nat.sub_eq_zero_of_le (le_mul_ceilDebt hP w i)

theorem floor_le_ceilDebt (hP : 0 < P) (w i : ℕ) : w * i / P ≤ ceilDebt P w i :=
  Nat.div_le_of_le_mul (le_mul_ceilDebt hP w i)

variable {d i w j : ℕ}

theorem due_of_floor_le (h : w * i / P ≤ d) : due P w i d = 0 :=
  Nat.sub_eq_zero_of_le h

theorem settle (hP : 0 < P) (w v i d : ℕ) :
    P * due P w i d + claim P v i (ceilDebt P v i) ≤ claim P w i d := by
  rw [claim_ceilDebt hP, Nat.add_zero]
  exact mul_due_le_claim w i d

theorem claim_add_le (w i j d : ℕ) : claim P w (i + j) d ≤ claim P w i d + w * j := by
  unfold claim
  rw [Nat.mul_add]
  omega

theorem claim_mono (h : i ≤ j) : claim P w i d ≤ claim P w j d :=
  Nat.sub_le_sub_right (Nat.mul_le_mul_left _ h) _

theorem due_mono (h : i ≤ j) : due P w i d ≤ due P w j d :=
  Nat.sub_le_sub_right (Nat.div_le_div_right (Nat.mul_le_mul_left _ h)) _

theorem ceilDebt_mono (h : i ≤ j) : ceilDebt P w i ≤ ceilDebt P w j := by
  have hm := Nat.mul_le_mul_left w h
  exact Nat.div_le_div_right (by omega)

theorem due_split (hP : 0 < P) (hd : d ≤ ceilDebt P w i) (h : i ≤ j) :
    due P w i d + due P w j (ceilDebt P w i) ≤ due P w j d ∧
      due P w j d ≤ due P w i d + due P w j (ceilDebt P w i) + 1 := by
  have hf := floor_le_ceilDebt hP w i
  have hc : ceilDebt P w i ≤ w * i / P + 1 := by
    rw [← Nat.add_div_right _ hP]
    exact Nat.div_le_div_right (Nat.sub_le _ _)
  have hm : w * i / P ≤ w * j / P := Nat.div_le_div_right (Nat.mul_le_mul_left w h)
  unfold due
  omega

theorem spread_le {W total : ℕ} (h : total ≤ W) (x : ℕ) : total * (x * P / W) ≤ P * x := by
  calc total * (x * P / W) ≤ W * (x * P / W) := Nat.mul_le_mul_right _ h
    _ ≤ x * P := Nat.mul_div_le _ _
    _ = P * x := Nat.mul_comm _ _

end Base.Accrual
