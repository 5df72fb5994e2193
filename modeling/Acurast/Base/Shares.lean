import Mathlib.Algebra.Order.BigOperators.Group.List
import Mathlib.Tactic.GCongr
import Acurast.Base.PerThing

/-! Several ratios of one whole, each rounded down, take no more than the whole. -/

namespace Base

theorem sum_map_le_of_superadditive {ι : Type*} {f : ℕ → ℕ} (hf : ∀ a b, f a + f b ≤ f (a + b))
    (y : ι → ℕ) (l : List ι) : (l.map fun i => f (y i)).sum ≤ f (l.map y).sum := by
  induction l with
  | nil => exact Nat.zero_le _
  | cons i l ih =>
    exact (Nat.add_le_add_left ih _).trans (hf _ _)

namespace PerThing

variable {n : ℕ}

theorem reduction_pos (n q : ℕ) : 0 < reduction n q := lt_of_lt_of_le Nat.one_pos (le_max_right _ _)

variable {q : ℕ} {ι : Type*}

theorem reduction_le (hn : 0 < n) (hq : 0 < q) : reduction n q ≤ q := by
  refine max_le ?_ hq
  rw [Nat.div_le_iff_le_mul_add_pred hn]
  have hm : q ≤ n * q := Nat.le_mul_of_pos_left q hn
  omega

def shareParts (r : PerThing n) (y q : ℕ) : ℕ :=
  r.parts * (y / reduction n q * n / (q / reduction n q)) / n

theorem saturatingMul_fromRational_le (r : PerThing n) {y : ℕ} (hy : y ≤ q) (hq : 0 < q) :
    (r.saturatingMul (fromRational y q)).parts ≤ r.shareParts y q := by
  have hl : (fromRational y q : PerThing n).parts ≤ y / reduction n q * n / (q / reduction n q) := by
    unfold fromRational
    rw [if_neg (by omega)]
    exact min_le_left _ _
  exact (min_le_left _ _).trans (Nat.div_le_div_right (Nat.mul_le_mul_left _ hl))

theorem shareParts_add_le (r : PerThing n) (q a b : ℕ) :
    r.shareParts a q + r.shareParts b q ≤ r.shareParts (a + b) q := by
  have hd : ∀ c x y : ℕ, x / c + y / c ≤ (x + y) / c := fun c x y => Nat.div_add_div_le_add_div
  refine (hd _ _ _).trans (Nat.div_le_div_right ?_)
  rw [← Nat.mul_add]
  refine Nat.mul_le_mul_left _ ((hd _ _ _).trans (Nat.div_le_div_right ?_))
  rw [← Nat.add_mul]
  exact Nat.mul_le_mul_right _ (hd _ _ _)

theorem shareParts_mono (r : PerThing n) {a b : ℕ} (h : a ≤ b) :
    r.shareParts a q ≤ r.shareParts b q := by
  unfold shareParts
  gcongr

theorem shareParts_self (r : PerThing n) (hn : 0 < n) (hq : 0 < q) :
    r.shareParts q q = r.parts := by
  have hp : 0 < q / reduction n q := Nat.div_pos (reduction_le hn hq) (reduction_pos n q)
  unfold shareParts
  rw [Nat.mul_div_cancel_left _ hp, Nat.mul_div_cancel _ hn]

theorem sum_saturatingMul_fromRational_le (r : PerThing n) (hn : 0 < n) (hq : 0 < q) (y : ι → ℕ)
    (l : List ι) (hs : (l.map y).sum ≤ q) :
    (l.map fun i => (r.saturatingMul (fromRational (y i) q)).parts).sum ≤ r.parts := by
  have hl : ∀ i ∈ l, y i ≤ q := by
    intro i hi
    exact (List.single_le_sum (fun _ _ => Nat.zero_le _) _ (List.mem_map_of_mem hi)).trans hs
  calc (l.map fun i => (r.saturatingMul (fromRational (y i) q)).parts).sum
      ≤ (l.map fun i => r.shareParts (y i) q).sum :=
        List.sum_le_sum fun i hi => r.saturatingMul_fromRational_le (hl i hi) hq
    _ ≤ r.shareParts (l.map y).sum q := sum_map_le_of_superadditive (r.shareParts_add_le q) y l
    _ ≤ r.shareParts q q := r.shareParts_mono hs
    _ = r.parts := r.shareParts_self hn hq

theorem sum_mulFloor_le (hn : 0 < n) (r : ι → PerThing n) (x : ℕ) (l : List ι)
    (hs : (l.map fun i => (r i).parts).sum ≤ n) : (l.map fun i => (r i).mulFloor x).sum ≤ x := by
  have ha : ∀ a b : ℕ, x * a / n + x * b / n ≤ x * (a + b) / n := by
    intro a b
    rw [Nat.mul_add]
    exact Nat.div_add_div_le_add_div
  calc (l.map fun i => (r i).mulFloor x).sum ≤ x * (l.map fun i => (r i).parts).sum / n :=
        sum_map_le_of_superadditive (f := fun a => x * a / n) ha (fun i => (r i).parts) l
    _ ≤ x * n / n := Nat.div_le_div_right (Nat.mul_le_mul_left _ hs)
    _ = x := Nat.mul_div_cancel _ hn

end PerThing

end Base
