import Mathlib.Algebra.BigOperators.Group.List.Basic
import Mathlib.Algebra.Order.BigOperators.Group.List
import Mathlib.Algebra.Order.Ring.Nat

/-! Payments out of budgets. Some budgets are open; what was paid out of one that is closed stays as it is. -/

namespace Base

structure Payment (K : Type*) where
  key : K
  amount : ℕ
  budget : ℕ
  deriving DecidableEq

variable {K : Type*} [DecidableEq K] {l new : List (Payment K)} {k : K}

def paidFor (l : List (Payment K)) (k : K) : ℕ :=
  (l.map fun x => if x.key = k then x.amount else 0).sum

theorem paidFor_append (new l : List (Payment K)) (k : K) :
    paidFor (new ++ l) k = paidFor new k + paidFor l k := by
  unfold paidFor
  rw [List.map_append, List.sum_append]

theorem paidFor_eq_zero (h : ∀ x ∈ l, x.key ≠ k) : paidFor l k = 0 := by
  refine List.sum_eq_zero fun y hy => ?_
  obtain ⟨x, hx, rfl⟩ := List.mem_map.mp hy
  exact if_neg (h x hx)

theorem paidFor_le {J : Type*} {f : J → Payment K} {js : List J} {n : ℕ} (hs : (js.map fun j => (f j).key).Nodup)
    (h : new.Sublist (js.map f)) (hn : ∀ j ∈ js, (f j).key = k → (f j).amount ≤ n) : paidFor new k ≤ n := by
  have hl : paidFor new k ≤ paidFor (js.map f) k :=
    (h.map _).sum_le_sum fun _ _ => Nat.zero_le _
  refine hl.trans ?_
  clear hl h
  induction js with
  | nil => exact Nat.zero_le _
  | cons j js ih =>
    obtain ⟨hj, hs⟩ := List.nodup_cons.mp hs
    have hc : paidFor ((j :: js).map f) k =
        (if (f j).key = k then (f j).amount else 0) + paidFor (js.map f) k := rfl
    rw [hc]
    by_cases hk : (f j).key = k
    · have hr : paidFor (js.map f) k = 0 := by
        refine paidFor_eq_zero fun x hx hq => hj ?_
        obtain ⟨i, hi, rfl⟩ := List.mem_map.mp hx
        exact List.mem_map.mpr ⟨i, hi, hq.trans hk.symm⟩
      rw [if_pos hk, hr]
      exact hn j List.mem_cons_self hk
    · rw [if_neg hk, Nat.zero_add]
      exact ih hs fun i hi => hn i (List.mem_cons_of_mem j hi)

structure WithinBudget (l : List (Payment K)) (isOpen : K → Prop) (budget : K → ℕ) : Prop where
  known : ∀ x ∈ l, isOpen x.key → x.budget = budget x.key
  settled : ∀ x ∈ l, paidFor l x.key ≤ x.budget

variable {isOpen isOpen' : K → Prop} {budget budget' : K → ℕ}

theorem WithinBudget.nil : WithinBudget ([] : List (Payment K)) isOpen budget :=
  ⟨fun _ hx => absurd hx List.not_mem_nil, fun _ hx => absurd hx List.not_mem_nil⟩

theorem WithinBudget.append (h : WithinBudget l isOpen budget)
    (hn : ∀ x ∈ new, isOpen x.key ∧ x.budget = budget x.key)
    (hl : ∀ k, isOpen k → paidFor (new ++ l) k ≤ budget k) : WithinBudget (new ++ l) isOpen budget := by
  refine ⟨fun x hx ho => ?_, fun x hx => ?_⟩
  · rcases List.mem_append.mp hx with hx | hx
    · exact (hn x hx).2
    · exact h.known x hx ho
  · rcases List.mem_append.mp hx with hx | hx
    · rw [(hn x hx).2]
      exact hl x.key (hn x hx).1
    · by_cases hp : ∃ y ∈ new, y.key = x.key
      · obtain ⟨y, hy, hk⟩ := hp
        have ho : isOpen x.key := hk ▸ (hn y hy).1
        rw [h.known x hx ho]
        exact hl x.key ho
      · have hno : paidFor new x.key = 0 := paidFor_eq_zero fun y hy hk => hp ⟨y, hy, hk⟩
        rw [paidFor_append, hno, Nat.zero_add]
        exact h.settled x hx

theorem WithinBudget.reopen (h : WithinBudget l isOpen budget)
    (ho : ∀ x ∈ l, isOpen' x.key → isOpen x.key ∧ budget' x.key = budget x.key) :
    WithinBudget l isOpen' budget' := by
  refine ⟨fun x hx ho' => ?_, h.settled⟩
  obtain ⟨hw, hs⟩ := ho x hx ho'
  rw [hs]
  exact h.known x hx hw

end Base
