import Acurast.Compute.DelegationMoves

/-! The calls on commitments as moves. -/

namespace Acurast.Compute

open Base

variable {A : Type} [DecidableEq A] {T : Config A} {allow : Special → Prop} {s s' : State T}
  {who : A} {c : CommitmentId}

def stakeAmount (s : State T) (c : CommitmentId) : ℕ :=
  ((s.commitments.lookup c).bind (·.stake)).elim 0 (·.amount)

variable {commission rate : Perbill} {cm cm' : Commitment} {extra : ℕ}

theorem stakeFor_ok {x period : ℕ} {auto : Bool}
    (h : stakeFor s who x period rate auto = .ok s')
    (hl : ∀ c ∈ stakedId s who x, allow (.clause (.stake c))) : Moves allow s s' := by
  simp only [stakeFor, ok_iff] at h
  obtain ⟨-, -, -, hm, -, ha, s₁, ho, c, hc, -, hf, w, hw, s₂, ht, pool, hp, rfl⟩ := h
  obtain ⟨-, rfl⟩ := updateTotalStake_add.mp ht
  obtain rfl := lockFunds_ok ho
  refine (Moves.world rfl).trans (Move.moves
    (.stake (?_ : Stakes _ _ (Stake.new x s.blockNumber period auto)) ?_))
  · exact ⟨hf, rfl, hp, rfl, rfl⟩
  · exact .stake hf rfl hm ha ⟨hw, fun _ => rfl⟩ (hl c hc)

theorem changeCommission_ok {P : Clause → Prop} (hc : s.commitments.lookup c = some cm)
    (h : changeCommission s c cm commission = .ok (s', cm')) : ∃ lastCommissionIncrease,
      s' = { s with lastCommissionIncrease } ∧ cm' = { cm with commission } ∧
      Amends T P s.terms { s.terms with
        commitments := s.commitments.insert c { cm with commission }, lastCommissionIncrease } := by
  unfold changeCommission at h
  split_ifs at h with hr
  · simp only [ok_iff, Prod.mk.injEq] at h
    obtain ⟨-, -, -, -, -, hs, -, hm, rfl, rfl⟩ := h
    refine ⟨_, rfl, rfl, .raiseCommission hc (fun last ha => ?_) ?_⟩
    · have ho : s.lastCommissionIncrease.lookup c = some last := ha
      rw [ho] at hs
      exact hs
    · have ht : commission.parts - cm.commission.parts ≤ T.maxCommissionIncreasePerDay.parts := hm
      omega
  · simp only [pure_eq_ok, Prod.mk.injEq] at h
    obtain ⟨rfl, rfl⟩ := h
    have hl : commission.parts ≤ cm.commission.parts := Nat.le_of_not_lt hr
    exact ⟨_, rfl, rfl, .lowerCommission hc hl⟩

theorem whenSome_changeCommission (P : Clause → Prop) {commission : Option Perbill}
    (hc : s.commitments.lookup c = some cm)
    (h : whenSome commission (s, cm) (changeCommission s c cm) = .ok (s', cm')) :
    ∃ lastCommissionIncrease commission, s' = { s with lastCommissionIncrease } ∧
      cm' = { cm with commission } ∧ Amends T P s.terms { s.terms with
        commitments := s.commitments.insert c { cm with commission }, lastCommissionIncrease } := by
  rcases whenSome_eq_ok.mp h with ⟨-, hq⟩ | ⟨commission, -, hh⟩
  · obtain ⟨rfl, rfl⟩ := Prod.mk.inj hq
    exact ⟨_, _, rfl, rfl, .agree hc ⟨rfl, rfl, rfl, rfl⟩⟩
  · obtain ⟨last, hch⟩ := changeCommission_ok hc hh
    exact ⟨last, commission, hch⟩

theorem raiseStake_cases {st st' : Stake}
    (h : raiseStake s who st extra = .ok (s', st')) :
    (s' = s ∧ st' = st ∧ extra = 0) ∨ (0 < st.amount + extra ∧ st' = { st with
        amount := st.amount + extra, rewardableAmount := st.amount + extra } ∧
      newLockTotal s who (st.amount + extra) .staking ≤ T.totalBalance s.world who ∧
      s' = { s with
        world := T.setLock s.world who (newLockTotal s who (st.amount + extra) .staking) }) := by
  unfold raiseStake at h
  split_ifs at h with hz
  · simp only [pure_eq_ok, Prod.mk.injEq] at h
    exact .inl ⟨h.1.symm, h.2.symm, hz⟩
  · simp only [ok_iff, checkedAdd_eq_some, Prod.mk.injEq] at h
    obtain ⟨x, ⟨rfl, -⟩, s₁, hl, rfl, rfl⟩ := h
    exact .inr ⟨by omega, rfl, lockFunds_covered hl, lockFunds_ok hl⟩

theorem stakeMoreFor_ok {per : Option ℕ} {commission : Option Perbill} {auto : Option Bool}
    (h : stakeMoreFor s who extra per commission auto = .ok s')
    (hl : ∀ p ∈ per, allow (.clause (.longer p))) : Moves allow s s' := by
  simp only [stakeMoreFor, ok_iff, Prod.exists] at h
  obtain ⟨c, -, cm, hc, s₁, cm₁, ho, st, hs, -, hac, s₂, stake₂, hr, -,
    hlo, weight, hw, weights, hwe, s₃, ht, -, -, rfl⟩ := h
  obtain ⟨-, rfl⟩ := updateTotalStake_add.mp ht
  obtain ⟨last, commission, rfl, rfl, hm⟩ :=
    whenSome_changeCommission (allow ∘ .clause) hc ho
  have ha : ∃ world rewardableAmount, s₂ = { s with lastCommissionIncrease := last, world } ∧
      stake₂ = { st with amount := st.amount + extra, rewardableAmount } ∧
      (rewardableAmount = st.amount + extra ∨
        extra = 0 ∧ rewardableAmount = st.rewardableAmount) := by
    rcases raiseStake_cases hr with ⟨rfl, rfl, rfl⟩ | ⟨-, rfl, -, rfl⟩
    · exact ⟨_, _, rfl, rfl, .inr ⟨rfl, rfl⟩⟩
    · exact ⟨_, _, rfl, rfl, .inl rfl⟩
  obtain ⟨world, rewardable, rfl, rfl, hre⟩ := ha
  have hres : Restates T (allow ∘ .clause) s.blockNumber st { st with
      amount := st.amount + extra
      rewardableAmount := rewardable
      cooldownPeriod := per.getD st.cooldownPeriod
      allowAutoCompound := auto.getD st.allowAutoCompound } := by
    refine ⟨rfl, ?_, .inl rfl, ?_⟩
    · cases per with
      | none => exact .inl rfl
      | some p => exact .inr ⟨hlo, hl p rfl⟩
    · rcases hre with rfl | ⟨rfl, rfl⟩
      · refine .inl ?_
        simp only [rewardableOf, hac, Option.isSome_none, Bool.false_eq_true, if_false]
      · exact .inr ⟨rfl, rfl, rfl⟩
  have hr : Move allow { s with
      commitments := s.commitments.insert c { cm with commission }, lastCommissionIncrease := last, world }
      { s with
        commitments := (s.commitments.insert c { cm with commission }).insert c { cm with
          commission
          stake := some { st with
            amount := st.amount + extra
            rewardableAmount := rewardable
            cooldownPeriod := per.getD st.cooldownPeriod
            allowAutoCompound := auto.getD st.allowAutoCompound }
          weights }
        lastCommissionIncrease := last, world, totalStake := s.totalStake + extra } := by
    refine .raise (AList.lookup_insert _) hs rfl rfl rfl
      (.restate (AList.lookup_insert _) hs rfl hres rfl (.of_weights hw hwe)) rfl
  rw [AList.insert_insert] at hr
  have hd : Adjusts cm { cm with commission } := ⟨rfl, rfl, rfl⟩
  exact .step (.adjust hc hd hm (.inl rfl)) ((Moves.world rfl).trans hr.moves)

theorem decreaseCommitterStake_ok {lost : ℕ} (h : decreaseCommitterStake s who c lost = .ok s')
    (hl : lost ≤ stakeAmount s c ∨ allow .overslash) : Moves allow s s' := by
  simp only [decreaseCommitterStake, ok_iff] at h
  obtain ⟨cm, hc, st, hs, s₁, ho, w, hw, weights, hwe, s₂, ht, rfl⟩ := h
  obtain ⟨hco, rfl⟩ := updateTotalStake_sub.mp ht
  obtain rfl := lockFunds_ok ho
  rw [stakeAmount, hc, Option.bind_some, hs, Option.elim_some] at hl
  refine (Moves.world rfl).trans (Move.moves (.lowerStake hc hs ?_ ?_ ?_ hco hl
    (.restate hc hs rfl ⟨rfl, .inl rfl, .inl rfl, .inl rfl⟩ rfl (.of_weights hw hwe)) ?_))
  · rfl
  · rfl
  · rfl
  · rfl

theorem withdrawCommitterFor_ok {reward : ℕ}
    (h : withdrawCommitterFor s who c = .ok (s', reward)) : Moves allow s s' := by
  simp only [withdrawCommitterFor, withdrawCommitterAccrued, ok_iff, Prod.exists, Prod.mk.injEq] at h
  obtain ⟨s₁, r, ⟨cm, hc, st, hs, rfl, rfl⟩, s₂, ht, rfl, -⟩ := h
  obtain ⟨w, -, hw⟩ := transferReward_ok ht
  refine .step (.retotal hc ?_) (.world hw)
  exact ⟨⟨by rw [hs]; rfl, rfl, rfl, rfl⟩, rfl, rfl, rfl⟩

theorem cooldownCommitmentFor_ok (h : cooldownCommitmentFor s c = .ok s') : Moves allow s s' := by
  simp only [cooldownCommitmentFor, ok_iff] at h
  obtain ⟨cm, hc, st, hs, -, ha, w, hwe, weights, hw, rfl⟩ := h
  refine Move.moves (.adjust hc ⟨by rw [hs]; rfl, rfl, rfl⟩
    (.restate hc hs rfl ⟨rfl, .inl rfl, .inr ⟨ha, rfl⟩, .inl rfl⟩ rfl ⟨?_, by simp⟩) (.inl rfl))
  rw [Commitment.selfWeight, MemoryBuffer.current_of_mutate hw]
  exact hwe

theorem closeCommitment_ok (h : closeCommitment s who c true = .ok s') : Moves allow s s' := by
  simp only [closeCommitment, checkCommitmentCooldown, if_true, ok_iff] at h
  obtain ⟨cm, hm, st, hs, -, ⟨start, hst, hn⟩, s₁, ht, hu⟩ := h
  obtain ⟨hc, rfl⟩ := updateTotalStake_sub.mp ht
  obtain ⟨w, -, rfl⟩ := unlockAndSlash_ok hu
  refine .step (.unstake hm hs ?_ ?_ ?_ hc (.unstake hm hs ?_ ?_ hst hn) ?_)
    (Aside.moves (.of_eq rfl) (.inl rfl))
  all_goals rfl

theorem endCommitmentFor_ok (h : endCommitmentFor s who c true = .ok s') : Moves allow s s' := by
  simp only [endCommitmentFor, bind_eq_ok, Prod.exists] at h
  obtain ⟨s₁, r, hw, hc⟩ := h
  exact (withdrawCommitterFor_ok hw).trans (closeCommitment_ok hc)

theorem compoundCommitter_ok (h : compoundCommitter s who c = .ok s') : Moves allow s s' := by
  simp only [compoundCommitter, bind_eq_ok, Prod.exists] at h
  obtain ⟨s₁, r, hw, hm⟩ := h
  exact (withdrawCommitterFor_ok hw).trans (stakeMoreFor_ok hm (by simp))

end Acurast.Compute
