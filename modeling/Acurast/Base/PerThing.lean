import Mathlib.Tactic.Common
import Mathlib.Algebra.Order.Ring.Nat

/-! Ratios in `[0, 1]` stored as whole parts of a fixed accuracy, rounded down throughout. -/

namespace Base

structure PerThing (accuracy : ℕ) where
  parts : ℕ
  le_one : parts ≤ accuracy
  deriving DecidableEq

namespace PerThing

variable {n : ℕ}

instance : LE (PerThing n) := ⟨fun p q => p.parts ≤ q.parts⟩
instance : LT (PerThing n) := ⟨fun p q => p.parts < q.parts⟩
instance (p q : PerThing n) : Decidable (p ≤ q) := inferInstanceAs (Decidable (p.parts ≤ q.parts))
instance (p q : PerThing n) : Decidable (p < q) := inferInstanceAs (Decidable (p.parts < q.parts))

def zero : PerThing n := ⟨0, Nat.zero_le _⟩

def one : PerThing n := ⟨n, le_rfl⟩

def fromParts (k : ℕ) : PerThing n := ⟨min k n, min_le_right _ _⟩

def mulFloor (p : PerThing n) (x : ℕ) : ℕ := x * p.parts / n

def saturatingMul (p q : PerThing n) : PerThing n := fromParts (p.parts * q.parts / n)

def saturatingAdd (p q : PerThing n) : PerThing n := fromParts (p.parts + q.parts)

def saturatingSub (p q : PerThing n) : PerThing n :=
  ⟨p.parts - q.parts, (Nat.sub_le _ _).trans p.le_one⟩

def checkedAdd (p q : PerThing n) : Option (PerThing n) :=
  if h : p.parts + q.parts ≤ n then some ⟨p.parts + q.parts, h⟩ else none

def reduction (n q : ℕ) : ℕ := max ((q + n - 1) / n) 1

/-- The ratio `p / q`; a zero denominator or a numerator above it gives one. -/
def fromRational (p q : ℕ) : PerThing n :=
  if q = 0 ∨ q < p then one
  else fromParts (p / reduction n q * n / (q / reduction n q))

theorem mulFloor_le (p : PerThing n) (x : ℕ) : p.mulFloor x ≤ x := by
  rcases Nat.eq_zero_or_pos n with hn | hn
  · subst hn
    simp [mulFloor]
  · apply Nat.div_le_of_le_mul
    rw [Nat.mul_comm]
    exact Nat.mul_le_mul_right _ p.le_one

theorem fromRational_parts {p q : ℕ} (hq : 0 < q) (hn : q ≤ n) (hp : p ≤ q) :
    (fromRational p q : PerThing n).parts = p * n / q := by
  have hr : reduction n q = 1 := by
    have hl : (q + n - 1) / n ≤ 1 := by
      apply Nat.le_of_lt_succ
      apply Nat.div_lt_of_lt_mul
      omega
    exact max_eq_right hl
  have hg : ¬ (q = 0 ∨ q < p) := by omega
  have hl : p * n / q ≤ n := by
    apply Nat.div_le_of_le_mul
    exact Nat.mul_le_mul_right n hp
  rw [fromRational, if_neg hg, hr, Nat.div_one, Nat.div_one]
  exact min_eq_left hl

theorem lt_fromRational {p q : ℕ} (hn : 0 < n) (hq : 0 < q) (hp : p ≤ q) :
    p * n < ((fromRational p q : PerThing n).parts + 2) * q := by
  have hg : ¬ (q = 0 ∨ q < p) := by omega
  rw [fromRational, if_neg hg]
  set k := reduction n q with hk
  have hk1 : 1 ≤ k := le_max_right _ _
  have hkn : (k - 1) * n < q := by
    rcases max_choice ((q + n - 1) / n) 1 with hm | hm
    · have hle : k * n ≤ q + n - 1 := by
        rw [hk, reduction, hm]
        exact Nat.div_mul_le_self _ _
      rw [Nat.sub_mul]
      omega
    · rw [hk, reduction, hm, Nat.sub_self, Nat.zero_mul]
      exact hq
  have hpq : (p / k * n / (q / k) + 1) * (q / k) > p / k * n := by
    have hkq : k ≤ q := by
      by_contra hlt
      have hl : q ≤ k - 1 := by omega
      exact absurd (hl.trans (Nat.le_mul_of_pos_right _ hn)) (by omega)
    exact Nat.lt_mul_of_div_lt (Nat.lt_succ_self _) (Nat.div_pos hkq hk1)
  unfold fromParts
  dsimp only
  rcases min_choice (p / k * n / (q / k)) n with hm | hm
  · rw [hm]
    have hmod : p ≤ p / k * k + (k - 1) := by
      have h1 := Nat.div_add_mod' p k
      have h2 := Nat.mod_lt p hk1
      omega
    calc p * n ≤ (p / k * k + (k - 1)) * n := Nat.mul_le_mul_right n hmod
      _ = p / k * n * k + (k - 1) * n := by rw [Nat.add_mul, Nat.mul_right_comm]
      _ < (p / k * n / (q / k) + 1) * (q / k) * k + q :=
        add_lt_add_of_le_of_lt (Nat.mul_le_mul_right k hpq.le) hkn
      _ ≤ (p / k * n / (q / k) + 1) * q + q := by
        rw [Nat.mul_assoc]
        exact Nat.add_le_add_right (Nat.mul_le_mul_left _ (Nat.div_mul_le_self q k)) q
      _ = (p / k * n / (q / k) + 2) * q := (Nat.succ_mul _ q).symm
  · rw [hm]
    calc p * n ≤ q * n := Nat.mul_le_mul_right n hp
      _ < (n + 2) * q := by
        rw [Nat.mul_comm q]
        exact Nat.mul_lt_mul_of_pos_right (by omega) hq

end PerThing

abbrev Percent := PerThing 100

abbrev Permill := PerThing (10 ^ 6)

abbrev Perbill := PerThing (10 ^ 9)

abbrev Perquintill := PerThing (10 ^ 18)

abbrev FixedU128 := ℕ

namespace FixedU128

def div : ℕ := 10 ^ 18

def checkedFromRational (n d : ℕ) : Option FixedU128 :=
  if d = 0 then none else if n * div / d < 2 ^ 128 then some (n * div / d) else none

def checkedDiv (a b : FixedU128) : Option FixedU128 := checkedFromRational a b

end FixedU128
end Base
