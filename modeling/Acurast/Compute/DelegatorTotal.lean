import Acurast.Compute.Mock
import Acurast.Compute.StepPostings

/-! What is stored as a delegator's total is the sum of the delegator's stakes. -/

namespace Acurast.Compute

open Base

variable {A : Type} [DecidableEq A] {T : Config A} {allow : Notable A → Prop} {s s' : State T}

def delegatedBy (s : State T) (who : A) : ℕ :=
  StorageMap.sum s.delegations fun k d => if k.1 = who then d.stake.amount else 0

def Totalled (s : State T) : Prop :=
  ∀ who, StorageMap.getD s.delegatorTotal who 0 = delegatedBy s who

def amountOf (d : Option Delegation) : ℕ := d.elim 0 (·.stake.amount)

omit [DecidableEq A] in
theorem at?_amount (who : A) (k : A × CommitmentId) (d : Option Delegation) [Decidable (k.1 = who)]
    {f : A × CommitmentId → Delegation → ℕ} (hf : ∀ d, f k d = if k.1 = who then d.stake.amount else 0) :
    StorageMap.at? f k d = if k.1 = who then amountOf d else 0 := by
  cases d with
  | none => simp [amountOf]
  | some d => exact hf d

variable {k : A × CommitmentId} {d : Delegation}

theorem Totalled.move {old new : Option Delegation} {total : ℕ} (hs : Totalled s)
    (hc : StorageMap.Changes s.delegations s'.delegations k old new)
    (ht : s'.delegatorTotal = s.delegatorTotal.insert k.1 total)
    (hm : total + amountOf old = StorageMap.getD s.delegatorTotal k.1 0 + amountOf new) :
    Totalled s' := by
  intro who
  have hw := hc.sum_eq fun k d => if k.1 = who then d.stake.amount else 0
  rw [at?_amount who k old fun _ => rfl, at?_amount who k new fun _ => rfl] at hw
  have hold := hs who
  unfold delegatedBy at hold ⊢
  rw [ht, getD_insert]
  split_ifs with hq
  · subst hq
    simp only [if_true] at hw
    omega
  · simp only [if_neg (Ne.symm hq)] at hw
    omega

theorem Totalled.keep {d' : Delegation} (hs : Totalled s) (hd : s.delegations.lookup k = some d)
    (hde : s'.delegations = s.delegations.insert k d')
    (ht : s'.delegatorTotal = s.delegatorTotal) (ha : d'.stake.amount = d.stake.amount) :
    Totalled s' := by
  intro who
  have hu := sum_insert_some hd d' fun k d => if k.1 = who then d.stake.amount else 0
  rw [ha, Nat.add_right_cancel_iff] at hu
  rw [ht, delegatedBy, hde, hu]
  exact hs who

theorem Posting.totalled (h : Posting allow s s') (hs : Totalled s) : Totalled s' := by
  cases h with
  | rest hl =>
    intro who
    rw [hl.delegatorTotal, delegatedBy, hl.delegations]
    exact hs who
  | outside | create | idle | keep | restake | stake | unstake => exact hs
  | settle hd hse => exact hs.keep hd rfl rfl (hse.quantity .amount)
  | cool hf hd hr => exact hs.keep hd rfl rfl hr.amount
  | @lower who c cm cm' d d' lost hf hd hr same ho hc =>
    refine hs.move (.insert hd d') rfl ?_
    have hm := hr.amount
    simp only [amountOf, Option.elim_some]
    omega
  | @leave who c cm cm' d hf hd same left hc =>
    refine hs.move (.erase hd) rfl ?_
    simp only [amountOf, Option.elim_some, Option.elim_none]
    omega
  | @join who c cm cm' d stake hf ht ha free =>
    refine hs.move (.insert free d) rfl ?_
    simp only [amountOf, Option.elim_some, Option.elim_none]
    omega

theorem Postings.totalled (h : Postings allow s s') (hs : Totalled s) : Totalled s' :=
  h.invariant (fun _ _ => Posting.totalled) hs

theorem run_totalled (T : Config A) (w : T.World) (ops : List (Op T)) :
    Totalled (reached w ops) := by
  have hk : ∀ (s : State T) (op : Op T), Regular s ∧ Totalled s →
      Regular (step s op) ∧ Totalled (step s op) := by
    intro s op hs
    have hp := step_postings_any s op hs.1
    exact ⟨hp.regular hs.1, hp.totalled hs.2⟩
  exact (run_invariant' hk ops ⟨genesis_regular T w, fun who => rfl⟩).2

theorem Totalled.amount_le {who : A} {c : CommitmentId} (hs : Totalled s)
    (hd : s.delegations.lookup (who, c) = some d) :
    d.stake.amount ≤ StorageMap.getD s.delegatorTotal who 0 := by
  rw [hs who, delegatedBy]
  have hl := StorageMap.le_sum hd (f := fun k d => if k.1 = who then d.stake.amount else 0)
  simpa only [if_true] using hl

/-- In every reachable state the total of every account is the sum of its stakes, and neither
`decreaseDelegatorStake` nor `closeDelegation` ever takes more from the total than it holds. -/
theorem delegatorTotal_eq_delegatedBy (T : Config A) (w : T.World) (ops : List (Op T)) (who : A) :
    StorageMap.getD (reached w ops).delegatorTotal who 0 =
        delegatedBy (reached w ops) who ∧
      ∀ s, Within (reached w ops) s → ∀ c d,
        s.delegations.lookup (who, c) = some d →
        (∀ target, (checkedSub (StorageMap.getD s.delegatorTotal who 0)
          (if d.stake.amount < target then d.stake.amount else target)).isSome) ∧
        (checkedSub (StorageMap.getD s.delegatorTotal who 0) d.stake.amount).isSome := by
  refine ⟨run_totalled T w ops who, fun s hw c d hd => ?_⟩
  have hp : Postings (fun _ => True) (reached w ops) s :=
    (hw.postings (run_regular T w ops) trivial).1
  have hl := (hp.totalled (run_totalled T w ops)).amount_le hd
  refine ⟨fun target => ?_, ?_⟩
  · have ht : (if d.stake.amount < target then d.stake.amount else target) ≤ d.stake.amount := by
      split_ifs <;> omega
    rw [checkedSub, if_pos (ht.trans hl), Option.isSome_some]
  · rw [checkedSub, if_pos hl, Option.isSome_some]

theorem delegatorTotal_of_opening :
    delegatedBy (after opening) 4 = 50 * unit := by
  rw [← (delegatorTotal_eq_delegatedBy mock [] opening 4).1]
  decide +kernel

end Acurast.Compute
