import Acurast.Marketplace.Strategy
import Mathlib.Data.Finset.Card

/-! What a job has cost since it was registered, what its assignments can still cost, and what can still
be matched. All three together stay within its reward, and its budget covers them. -/

namespace Acurast.Marketplace

open Base

variable {A : Type} {T : Config A} [DecidableEq A] {b b' b₁ : Book A} {p : A} {j j' : JobId A}
  {registration reg : JobRegistration A} {a a' : Assignment}

def paidSince : List (Entry A) → JobId A → ℕ
  | [], _ => 0
  | .registered j' _ :: history, j => if j' = j then 0 else paidSince history j
  | .paid j' n :: history, j => (if j' = j then n else 0) + paidSince history j

def promised : List (Entry A) → JobId A → ℕ
  | [], _ => 0
  | .registered j' registration :: history, j =>
    if j' = j then registration.totalReward else promised history j
  | .paid _ _ :: history, j => promised history j

def owed (T : Config A) (registration : JobRegistration A) (a : Assignment) : ℕ :=
  (a.sla.total - a.sla.met) * a.feePerExecution + if a.acknowledged = true then 0
    else T.matcherPercentage.mulFloor (matcherRemaining registration a a.execution)

def outstanding (T : Config A) (registration : JobRegistration A)
    (m : StorageMap (A × JobId A) Assignment) (j : JobId A) : ℕ :=
  StorageMap.sum m fun k a => if k.2 = j then owed T registration a else 0

def upcoming (b : Book A) (j : JobId A) (registration : JobRegistration A) : Finset ℕ :=
  (Finset.range registration.schedule.executionCount).filter fun i => b.executionOpen j i ∧
    b.time < registration.schedule.startTime + registration.schedule.interval * i

def unmatched (b : Book A) (j : JobId A) (registration : JobRegistration A) : ℕ :=
  match registration.extra.assignmentStrategy with
  | .single _ => if b.status.lookup j = some .opened then registration.totalReward else 0
  | .competing =>
    (upcoming b j registration).card * (registration.extra.reward * registration.extra.slots)

/-- Who is assigned to all executions has reported no more of them than lie before the next one that is
expected. -/
structure OnTrack (b : Book A) (p : A) (j : JobId A) (a : Assignment) : Prop where
  total_pos : 0 < a.sla.total
  fresh : a.acknowledged = false → a.sla.met = 0
  next : a.acknowledged = true →
    ∃ n, b.reports.lookup (j, p) = some n ∧ a.sla.met ≤ n ∧ n < a.sla.total

structure Within (T : Config A) (b : Book A) (j : JobId A) (registration : JobRegistration A) :
    Prop where
  within : paidSince b.history j + outstanding T registration b.assignments j +
    unmatched b j registration ≤ registration.totalReward
  promised_eq : promised b.history j = registration.totalReward
  onTrack : ∀ p a, b.assignments.lookup (p, j) = some a → a.execution = .all → OnTrack b p j a

structure Covered (T : Config A) (b : Book A) (j : JobId A) (registration : JobRegistration A) : Prop
    extends Within T b j registration where
  backed : registration.totalReward ≤ b.budget j + paidSince b.history j

theorem Covered.outstanding_le (h : Covered T b j reg) :
    outstanding T reg b.assignments j ≤ b.budget j := by
  have hw := h.within
  have hb := h.backed
  omega

theorem Covered.owed_le (h : Covered T b j reg)
    (hf : b.assignments.lookup (p, j) = some a) : owed T reg a ≤ b.budget j := by
  have hp := StorageMap.le_sum (f := fun k a => if k.2 = j then owed T reg a else 0) hf
  rw [if_pos rfl] at hp
  exact hp.trans h.outstanding_le

structure SameJob (b b' : Book A) (j : JobId A) : Prop where
  registration : b'.registrations.lookup j = b.registrations.lookup j
  status : b'.status.lookup j = b.status.lookup j
  executions : ∀ i, b'.executionStatus.lookup (j, i) = b.executionStatus.lookup (j, i)
  assignments : ∀ p, b'.assignments.lookup (p, j) = b.assignments.lookup (p, j)
  reports : ∀ p, b'.reports.lookup (j, p) = b.reports.lookup (j, p)
  budget : b'.budget j = b.budget j
  paid : paidSince b'.history j = paidSince b.history j
  promised : promised b'.history j = promised b.history j
  time : b.time ≤ b'.time

theorem outstanding_le_of_lookup {m m' : StorageMap (A × JobId A) Assignment}
    (h : ∀ p, m'.lookup (p, j) = m.lookup (p, j)) :
    outstanding T reg m' j ≤ outstanding T reg m j := by
  refine StorageMap.sum_le_of_lookup fun k a ha => ?_
  obtain ⟨p, j'⟩ := k
  by_cases hj : j' = j
  · subst hj
    rw [← h p, ha, StorageMap.at?_some]
  · rw [if_neg hj]
    exact Nat.zero_le _

theorem executionOpen_of_lookup {i : ℕ}
    (h : b'.executionStatus.lookup (j, i) = b.executionStatus.lookup (j, i))
    (ho : b'.executionOpen j i) : b.executionOpen j i := by
  unfold Book.executionOpen StorageMap.getD at ho ⊢
  rwa [← h]

theorem upcoming_subset (hp : ∀ i, b'.time < reg.schedule.startTime +
      reg.schedule.interval * i → b'.executionOpen j i → b.executionOpen j i)
    (ht : b.time ≤ b'.time) : upcoming b' j reg ⊆ upcoming b j reg := by
  intro i hi
  obtain ⟨hr, ho, ha⟩ := Finset.mem_filter.mp hi
  exact Finset.mem_filter.mpr ⟨hr, hp i ha ho, ht.trans_lt ha⟩

theorem unmatched_le (hs : b'.status.lookup j = some .opened → b.status.lookup j = some .opened)
    (hp : ∀ i, b'.time < reg.schedule.startTime + reg.schedule.interval * i →
      b'.executionOpen j i → b.executionOpen j i)
    (ht : b.time ≤ b'.time) : unmatched b' j reg ≤ unmatched b j reg := by
  unfold unmatched
  split
  · by_cases ho : b'.status.lookup j = some .opened
    · rw [if_pos ho, if_pos (hs ho)]
    · rw [if_neg ho]
      exact Nat.zero_le _
  · exact Nat.mul_le_mul_right _ (Finset.card_le_card (upcoming_subset hp ht))

theorem Covered.same (h : Covered T b j reg) (hs : SameJob b b' j) :
    Covered T b' j reg := by
  have ho : outstanding T reg b'.assignments j ≤
      outstanding T reg b.assignments j := outstanding_le_of_lookup hs.assignments
  have hu : unmatched b' j reg ≤ unmatched b j reg :=
    unmatched_le (fun ht => by rwa [← hs.status])
      (fun i _ => executionOpen_of_lookup (hs.executions i)) hs.time
  have hw := h.within
  refine ⟨⟨?_, hs.promised.trans h.promised_eq, fun p a ha hl => ?_⟩, ?_⟩
  · rw [hs.paid]
    omega
  · rw [hs.assignments] at ha
    obtain ⟨hp, hf, hn⟩ := h.onTrack p a ha hl
    rw [← hs.reports] at hn
    exact ⟨hp, hf, hn⟩
  · rw [hs.budget, hs.paid]
    exact h.backed

section Outstanding

variable {m : StorageMap (A × JobId A) Assignment}

theorem outstanding_replace (hf : m.lookup (p, j) = some a) (a' : Assignment) :
    outstanding T reg (m.insert (p, j) a') j + owed T reg a =
      outstanding T reg m j + owed T reg a' := by
  have hs := sum_insert_some hf a' fun k a => if k.2 = j then owed T reg a else 0
  rwa [if_pos rfl, if_pos rfl] at hs

theorem outstanding_erase (hf : m.lookup (p, j) = some a) :
    outstanding T reg (m.erase (p, j)) j + owed T reg a =
      outstanding T reg m j := by
  have hs := sum_erase_some hf fun k a => if k.2 = j then owed T reg a else 0
  rwa [if_pos rfl] at hs

theorem outstanding_erase_le (m : StorageMap (A × JobId A) Assignment) (p : A) (j : JobId A) :
    outstanding T reg (m.erase (p, j)) j ≤ outstanding T reg m j := by
  have hs := StorageMap.sum_erase m (fun k a => if k.2 = j then owed T reg a else 0) (p, j)
  exact Nat.le_of_add_right_le hs.le

theorem outstanding_eq_zero (hf : ∀ p, m.lookup (p, j) = none) :
    outstanding T reg m j = 0 := by
  refine StorageMap.sum_eq_zero fun k a ha => if_neg ?_
  rintro rfl
  rw [hf k.1] at ha
  cases ha

theorem owed_all_le (h : Assignable T b j reg .all p a) :
    owed T reg a ≤ reg.extra.reward * reg.schedule.executionCount := by
  have hf := h.fee
  have hs : a.sla = ⟨reg.schedule.executionCount, 0⟩ := h.sla
  have hm := T.matcherPercentage.mulFloor_le (matcherRemaining reg a a.execution)
  have hr : matcherRemaining reg a a.execution ≤
      (reg.extra.reward - a.feePerExecution) * reg.schedule.executionCount := by
    rw [h.execution_eq]
    exact saturatingMul_le
  unfold owed
  rw [h.acknowledged, hs, if_neg Bool.false_ne_true]
  calc _ ≤ reg.schedule.executionCount * a.feePerExecution +
        (reg.extra.reward - a.feePerExecution) * reg.schedule.executionCount :=
        Nat.add_le_add_left (hm.trans hr) _
    _ = reg.extra.reward * reg.schedule.executionCount := by
        rw [Nat.mul_comm _ a.feePerExecution, ← Nat.add_mul, Nat.add_sub_cancel' hf]

theorem owed_index_le {i : ℕ} (h : Assignable T b j reg (.index i) p a)
    (hc : ∀ previous, b.assignments.lookup (p, j) = some previous →
      previous.sla.met < previous.sla.total → a.feePerExecution ≤ previous.feePerExecution) :
    owed T reg a ≤
      (b.assignments.lookup (p, j)).elim 0 (owed T reg) + reg.extra.reward := by
  have hf := h.fee
  have hm : T.matcherPercentage.mulFloor (matcherRemaining reg a a.execution) ≤
      reg.extra.reward - a.feePerExecution := by
    rw [h.execution_eq]
    exact T.matcherPercentage.mulFloor_le _
  have hs : a.sla = nextSla (b.assignments.lookup (p, j)) := h.sla
  unfold owed
  rw [h.acknowledged, if_neg Bool.false_ne_true, hs]
  cases hp : b.assignments.lookup (p, j) with
  | none =>
    simp only [nextSla, Option.elim_none]
    omega
  | some previous =>
    have ht : saturatingAdd 64 previous.sla.total 1 ≤ previous.sla.total + 1 := saturatingAdd_le
    simp only [nextSla, Option.elim_some]
    have hcos : (saturatingAdd 64 previous.sla.total 1 - previous.sla.met) * a.feePerExecution ≤
        (previous.sla.total - previous.sla.met) * previous.feePerExecution + a.feePerExecution := by
      have ho : saturatingAdd 64 previous.sla.total 1 - previous.sla.met ≤
          (previous.sla.total - previous.sla.met) + 1 := by omega
      refine (Nat.mul_le_mul_right _ ho).trans ?_
      rw [Nat.add_mul, Nat.one_mul]
      refine Nat.add_le_add_right ?_ _
      rcases Nat.lt_or_ge previous.sla.met previous.sla.total with hl | hd
      · exact Nat.mul_le_mul_left _ (hc previous hp hl)
      · rw [Nat.sub_eq_zero_of_le hd, Nat.zero_mul, Nat.zero_mul]
    omega

end Outstanding

theorem Assigns.outstanding_le {good : Book A → Deed A → Prop} {ex : ExecutionSpecifier}
    {n x : ℕ} (h : Assigns T good j reg ex b n b')
    (hc : ∀ b₁ p a, Assignable T b₁ j reg ex p a →
      good b₁ (.hire ⟨p, j, ex, a.startDelay, a.feePerExecution⟩) →
      owed T reg a ≤ (b₁.assignments.lookup (p, j)).elim 0 (owed T reg) + x) :
    outstanding T reg b'.assignments j ≤
      outstanding T reg b.assignments j + n * x := by
  induction h with
  | none => exact Nat.le_add_right _ _
  | @more n b₁ p a hb ha ho ih =>
    have hd := hc b₁ p a ha ho
    have hs := StorageMap.sum_insert b₁.assignments
      (fun k a => if k.2 = j then owed T reg a else 0) (p, j) a
    have ht : StorageMap.at? (fun k a => if k.2 = j then owed T reg a else 0) (p, j)
        (b₁.assignments.lookup (p, j)) =
        (b₁.assignments.lookup (p, j)).elim 0 (owed T reg) := by
      cases b₁.assignments.lookup (p, j) with
      | none => rfl
      | some previous => exact if_pos rfl
    rw [ht, if_pos rfl] at hs
    have hn : outstanding T reg (b₁.assign p j a).assignments j +
        (b₁.assignments.lookup (p, j)).elim 0 (owed T reg) =
        outstanding T reg b₁.assignments j + owed T reg a := hs
    rw [Nat.add_mul, Nat.one_mul]
    omega

end Acurast.Marketplace
