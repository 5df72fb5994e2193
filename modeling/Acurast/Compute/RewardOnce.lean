import Acurast.Compute.Mock

/-! Every unit of reward a delegator accrues is paid once, unless a call that ends a delegation on
the way pays its reward again. -/

namespace Acurast.Compute

open Base

variable {A : Type} [DecidableEq A] {T : Config A} {s s' : State T}

def paidTo (who : A) : Entry A → ℕ
  | .paid who' _ amount => if who' = who then amount else 0
  | _ => 0

def withdrawnBy (who : A) : Entry A → ℕ
  | .withdrew who' _ amount => if who' = who then amount else 0
  | _ => 0

def accruedBy (who : A) : Entry A → ℕ
  | .accrued who' _ _ reward _ => if who' = who then reward else 0
  | _ => 0

def heldReward (s : State T) (who : A) : ℕ :=
  StorageMap.sum s.delegations fun k d => if k.1 = who then d.stake.accruedReward else 0

/-- What was paid is what was taken out of the delegations, and what they accrued is either taken
out or still there. -/
structure PaidOnce (s : State T) (who : A) : Prop where
  paid : tally (paidTo who) s = tally (withdrawnBy who) s
  accrued : tally (accruedBy who) s = tally (withdrawnBy who) s + heldReward s who

theorem Move.paidOnce (who : A) (h : Move (· ≠ .repay) s s') (hs : PaidOnce s who) :
    PaidOnce s' who := by
  obtain ⟨hpa, hac⟩ := hs
  cases h with
  | rest hb hcl =>
    refine ⟨?_, ?_⟩
    · simpa only [tally, hb.history] using hpa
    · simpa only [tally, heldReward, hb.history, hb.delegations] using hac
  | adjust hf had => exact ⟨hpa, hac⟩
  | @accrue who' c d d' e reward slash hd hn hacc =>
    have hsu := sum_insert_some hd d' (fun k d => if k.1 = who then d.stake.accruedReward else 0)
    have hre := hacc.accruedReward
    refine ⟨by simpa [tally, paidTo, withdrawnBy] using hpa, ?_⟩
    simp only [tally, heldReward, List.map_cons, List.sum_cons, accruedBy, withdrawnBy] at hac hsu ⊢
    split_ifs at hsu ⊢ <;> omega
  | @revise who' c d d' lost hd hc hr =>
    have hsu := sum_insert_some hd d' (fun k d => if k.1 = who then d.stake.accruedReward else 0)
    have hre := hr.accruedReward
    refine ⟨hpa, ?_⟩
    simp only [tally, heldReward] at hac hsu ⊢
    split_ifs at hsu <;> omega
  | @payout who' c d paid hd =>
    have hsu := sum_insert_some hd
      { d with stake := { d.stake with accruedReward := 0, paid } }
      (fun k d => if k.1 = who then d.stake.accruedReward else 0)
    simp only [tally] at hpa
    simp only [tally, heldReward] at hac hsu
    refine ⟨?_, ?_⟩
    · simp only [tally, List.map_cons, List.sum_cons, paidTo, withdrawnBy]
      omega
    · simp only [tally, heldReward, List.map_cons, List.sum_cons, accruedBy, withdrawnBy]
      split_ifs at hsu ⊢ <;> omega
  | @close who' c d hd hpai hc =>
    have hsu := sum_erase_some hd (fun k d => if k.1 = who then d.stake.accruedReward else 0)
    refine ⟨hpa, ?_⟩
    simp only [tally, heldReward, hpai, ite_self] at hac hsu ⊢
    omega
  | @join who' c d free hj =>
    have hsu := sum_insert_none free d (fun k d => if k.1 = who then d.stake.accruedReward else 0)
    refine ⟨hpa, ?_⟩
    simp only [tally, heldReward, hj.accruedReward, ite_self] at hac hsu ⊢
    omega
  | stake hsta => exact ⟨hpa, hac⟩
  | raise hf ht hra hp hl => exact ⟨hpa, hac⟩
  | unstake hf ht hu hp hl hc => exact ⟨hpa, hac⟩
  | lowerStake hf ht ho hp hl hc ha =>
    exact ⟨hpa, hac⟩
  | reback ha => exact ⟨hpa, hac⟩
  | @repay who' c reward ha =>
    have hz := ha.resolve_right (fun h => h rfl)
    subst hz
    refine ⟨?_, ?_⟩
    · simpa [tally, paidTo, withdrawnBy] using hpa
    · simpa [tally, accruedBy, withdrawnBy, heldReward] using hac
  | noteSlash =>
    refine ⟨?_, ?_⟩
    · simpa [tally, paidTo, withdrawnBy] using hpa
    · simpa [tally, accruedBy, withdrawnBy, heldReward] using hac
  | mark hf hm ha =>
    refine ⟨?_, ?_⟩
    · simpa only [tally, List.map_append, List.sum_append, tally_charges (f := paidTo who) fun _ _ _ _ => rfl,
        tally_charges (f := withdrawnBy who) fun _ _ _ _ => rfl, Nat.zero_add] using hpa
    · simpa only [tally, List.map_append, List.sum_append, heldReward,
        tally_charges (f := accruedBy who) fun _ _ _ _ => rfl,
        tally_charges (f := withdrawnBy who) fun _ _ _ _ => rfl, Nat.zero_add] using hac
  | credit hf hcr ha =>
    refine ⟨?_, ?_⟩
    · simpa [tally, paidTo, withdrawnBy] using hpa
    · simpa [tally, accruedBy, withdrawnBy, heldReward] using hac

theorem step_paidOnce (who : A) (s : State T) (op : Op T) (hr : RepaysNothing s op)
    (hs : PaidOnce s who) : PaidOnce (step s op) who :=
  Moves.invariant (fun _ _ => Move.paidOnce who) (step_moves s op { repay := .inl hr }) hs

/-- Where no reward is pending when a delegation is raised or moved, every delegator was paid what
was taken out of the delegations, and that is what they accrued and no longer hold. -/
theorem paid_eq_accrued_of_repaysNothing (w : T.World) (ops : List (Op T))
    (hrun : Along step RepaysNothing (State.genesis T w) ops) (who : A) :
    PaidOnce (reached w ops) who :=
  run_invariant (step_paidOnce who) hrun ⟨rfl, rfl⟩

theorem paid_eq_accrued_after_withdraw : Along step RepaysNothing (State.genesis mock [])
      (rewarded ++ [signed 4 (.withdrawDelegation 2), signed 4 (.delegateMore 2 unit none none)]) ∧
    PaidOnce (run step (State.genesis mock [])
      (rewarded ++ [signed 4 (.withdrawDelegation 2), signed 4 (.delegateMore 2 unit none none)])) 4 := by
  have hr : Along step RepaysNothing (State.genesis mock [])
      (rewarded ++ [signed 4 (.withdrawDelegation 2), signed 4 (.delegateMore 2 unit none none)]) := by
    decide +kernel
  exact ⟨hr, paid_eq_accrued_of_repaysNothing _ _ hr 4⟩

/-- Raising the delegation instead pays the same reward twice. -/
theorem paid_twice_by_delegateMore : tally (accruedBy 4) (run step (State.genesis mock [])
      (rewarded ++ [signed 4 (.delegateMore 2 unit none none)])) = 9988584474885943 ∧
    tally (withdrawnBy 4) (run step (State.genesis mock [])
      (rewarded ++ [signed 4 (.delegateMore 2 unit none none)])) = 9988584474885943 ∧
    tally (paidTo 4) (run step (State.genesis mock [])
      (rewarded ++ [signed 4 (.delegateMore 2 unit none none)])) = 2 * 9988584474885943 := by
  decide +kernel

end Acurast.Compute
