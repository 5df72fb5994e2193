import Acurast.Compute.Step

/-! What the start of a block does to the meter: now and then it starts an epoch, with new budgets. -/

namespace Acurast.Compute

open Base

variable {A : Type} {T : Config A} {s : State T}

abbrev Meter.epoch (mt : Meter A) : ℕ := mt.currentCycle.epoch

def Meter.budgets (mt : Meter A) (p : PoolId) : SlidingBuffer RewardBudget :=
  StorageMap.getD mt.stakeBasedRewards p default

/-- What a block does to the meter: the epoch goes on by at most one, and the rewards of the new one
are set. At the last epoch its own rewards are set again. -/
structure Ticks (mt mt' : Meter A) : Prop where
  metricPools : mt'.metricPools = mt.metricPools
  metricsEpochSum : mt'.metricsEpochSum = mt.metricsEpochSum
  scores : mt'.scores = mt.scores
  lastScored : mt'.lastScored = mt.lastScored
  payouts : mt'.payouts = mt.payouts
  epoch : mt'.epoch = mt.epoch ∨ mt'.epoch = mt.epoch + 1
  computeBasedRewards : mt'.computeBasedRewards = mt.computeBasedRewards ∨ ∃ amount,
    mt'.computeBasedRewards = mt.computeBasedRewards.mutate mt'.epoch (fun _ => amount) false
  budgets : ∀ p, mt'.budgets p = mt.budgets p ∨ (mt'.epoch = mt.epoch + 1 ∨ 2 ^ 32 - 1 ≤ mt.epoch) ∧
    ∃ budget, budget.totalScore = 0 ∧
      mt'.budgets p = (mt.budgets p).mutate mt'.epoch (fun _ => budget) false

theorem getD_storeStakedComputeReward (s : State T) (x last target : ℕ) (p : PoolId) :
    StorageMap.getD (storeStakedComputeReward s x last target).stakeBasedRewards p default =
      match s.metricPools.lookup p with
      | some pool => (StorageMap.getD s.stakeBasedRewards p default).mutate s.currentCycle.epoch
        (fun _ => RewardBudget.new ((pool.reward.get last).mulFloor x)
          (targetWeightPerComputeOf T target (pool.total.get last))) false
      | none => StorageMap.getD s.stakeBasedRewards p default := by
  -- the induction is on the pools that are left, over the budgets stored so far
  have hf : ∀ (l : List (Sigma fun _ : PoolId => MetricPool)), l.NodupKeys → ∀ budgets,
      StorageMap.getD (l.foldl (fun budgets e =>
        storePoolBudget s x last target budgets e.1 e.2) budgets) p default =
      match l.dlookup p with
      | some pool => (StorageMap.getD budgets p default).mutate s.currentCycle.epoch
        (fun _ => RewardBudget.new ((pool.reward.get last).mulFloor x)
          (targetWeightPerComputeOf T target (pool.total.get last))) false
      | none => StorageMap.getD budgets p default := by
    intro l
    induction l with
    | nil => exact fun _ budgets => rfl
    | cons e l ih =>
      intro hl budgets
      obtain ⟨q, pool⟩ := e
      obtain ⟨hq, hl⟩ := List.nodupKeys_cons.mp hl
      rw [List.foldl_cons, ih hl]
      simp only [storePoolBudget, getD_insert]
      by_cases hp : p = q
      · subst hp
        rw [List.dlookup_eq_none.mpr hq, List.dlookup_cons_eq]
        simp only [if_true]
      · rw [List.dlookup_cons_ne _ _ hp]
        simp only [if_neg hp]
  exact hf s.metricPools.entries s.metricPools.nodupKeys s.stakeBasedRewards

theorem rewardCollator_meter (s : State T) : (rewardCollator s).meter = s.meter := by
  unfold rewardCollator
  split_ifs
  · rfl
  · split
    · rfl
    · split
      · rfl
      · rfl

theorem inflate_meter (s : State T) : (inflate s).1.meter = s.meter := by
  unfold inflate
  split_ifs
  · rfl
  · dsimp only
    split
    · rfl
    · rfl

def budgetState (s : State T) : State T :=
  storeMetricsReward (inflate (advanceEpoch s)).1 (inflate (advanceEpoch s)).2.metricsReward

theorem startEpoch_meter (s : State T) : (startEpoch s).meter =
    (storeStakedComputeReward (budgetState s) (inflate (advanceEpoch s)).2.stakedComputeReward
      s.currentCycle.epoch (T.targetStakedTokenSupply.mulFloor (T.totalIssuance s.world))).meter := by
  unfold startEpoch
  dsimp only
  split
  · rfl
  · rfl

theorem budgetState_meter (s : State T) : ∃ rewards, (budgetState s).meter = { s.meter with
      currentCycle := (advanceEpoch s).currentCycle
      computeBasedRewards := rewards } ∧
    (rewards = s.computeBasedRewards ∨ ∃ x, rewards =
      s.computeBasedRewards.mutate (advanceEpoch s).currentCycle.epoch (fun _ => x) false) := by
  have hm : (inflate (advanceEpoch s)).1.meter = (advanceEpoch s).meter := inflate_meter _
  have hc : (inflate (advanceEpoch s)).1.currentCycle = (advanceEpoch s).currentCycle :=
    congrArg Meter.currentCycle hm
  have hr : (inflate (advanceEpoch s)).1.computeBasedRewards = s.computeBasedRewards :=
    congrArg Meter.computeBasedRewards hm
  unfold budgetState storeMetricsReward
  split_ifs
  · exact ⟨s.computeBasedRewards, hm, .inl rfl⟩
  · refine ⟨_, ?_, .inr ⟨(inflate (advanceEpoch s)).2.metricsReward, rfl⟩⟩
    rw [← hc, ← hr]
    exact congrArg (fun mt : Meter A => { mt with
      computeBasedRewards := (inflate (advanceEpoch s)).1.computeBasedRewards.mutate
        (inflate (advanceEpoch s)).1.currentCycle.epoch
        (fun _ => (inflate (advanceEpoch s)).2.metricsReward) false
      currentCycle := (inflate (advanceEpoch s)).1.currentCycle }) hm

theorem advanceEpoch_epoch (hl : s.currentCycle.epoch < 2 ^ 32) :
    (advanceEpoch s).currentCycle.epoch = s.currentCycle.epoch + 1 ∨
      (advanceEpoch s).currentCycle.epoch = s.currentCycle.epoch ∧ 2 ^ 32 - 1 ≤ s.currentCycle.epoch := by
  simp only [advanceEpoch, saturatingAdd, maxOf]
  omega

theorem startEpoch_epoch (s : State T) :
    (startEpoch s).meter.epoch = (advanceEpoch s).currentCycle.epoch := by
  obtain ⟨rewards, hm, -⟩ := budgetState_meter s
  rw [startEpoch_meter]
  exact congrArg Meter.epoch hm

theorem startEpoch_budgets (s : State T) (p : PoolId) : (startEpoch s).meter.budgets p =
    match s.metricPools.lookup p with
    | some pool => (s.meter.budgets p).mutate (advanceEpoch s).currentCycle.epoch
      (fun _ => RewardBudget.new
        ((pool.reward.get s.currentCycle.epoch).mulFloor (inflate (advanceEpoch s)).2.stakedComputeReward)
        (targetWeightPerComputeOf T (T.targetStakedTokenSupply.mulFloor (T.totalIssuance s.world))
          (pool.total.get s.currentCycle.epoch))) false
    | none => s.meter.budgets p := by
  obtain ⟨rewards, hm, -⟩ := budgetState_meter s
  have hc : (budgetState s).currentCycle = (advanceEpoch s).currentCycle :=
    congrArg Meter.currentCycle hm
  have hp : (budgetState s).metricPools = s.metricPools := congrArg Meter.metricPools hm
  have hb : (budgetState s).stakeBasedRewards = s.stakeBasedRewards :=
    congrArg Meter.stakeBasedRewards hm
  have hs := getD_storeStakedComputeReward (budgetState s)
    (inflate (advanceEpoch s)).2.stakedComputeReward s.currentCycle.epoch
    (T.targetStakedTokenSupply.mulFloor (T.totalIssuance s.world)) p
  rw [hp, hb, hc] at hs
  rw [startEpoch_meter]
  exact hs

theorem startEpoch_ticks (hl : s.currentCycle.epoch < 2 ^ 32) : Ticks s.meter (startEpoch s).meter := by
  obtain ⟨rewards, hm, hr⟩ := budgetState_meter s
  have ho : (budgetState s).metricPools = s.metricPools := congrArg Meter.metricPools hm
  have hu : (budgetState s).metricsEpochSum = s.metricsEpochSum :=
    congrArg Meter.metricsEpochSum hm
  have hc : (budgetState s).scores = s.scores := congrArg Meter.scores hm
  have hs : (budgetState s).meter.lastScored = s.meter.lastScored := by rw [hm]
  have hpa : (budgetState s).payouts = s.payouts := congrArg Meter.payouts hm
  have hco : (budgetState s).computeBasedRewards = rewards :=
    congrArg Meter.computeBasedRewards hm
  have hp := advanceEpoch_epoch hl
  refine ⟨?_, ?_, ?_, ?_, ?_, ?_, ?_, fun p => ?_⟩
  · rw [startEpoch_meter]
    exact ho
  · rw [startEpoch_meter]
    exact hu
  · rw [startEpoch_meter]
    exact hc
  · rw [startEpoch_meter]
    exact hs
  · rw [startEpoch_meter]
    exact hpa
  · rw [startEpoch_epoch]
    exact hp.symm.imp_left And.left
  · have ht : (startEpoch s).meter.computeBasedRewards = rewards := by
      rw [startEpoch_meter]
      exact hco
    rw [ht, startEpoch_epoch]
    exact hr
  · rw [startEpoch_budgets, startEpoch_epoch]
    cases hpoo : s.metricPools.lookup p with
    | none => exact .inl rfl
    | some pool => exact .inr ⟨hp.imp_right And.right, _, rfl, rfl⟩

theorem onInitialize_ticks (hs : Started s) : Ticks s.meter (onInitialize s).meter := by
  unfold onInitialize
  rw [rewardCollator_meter]
  split_ifs with ht hp
  · refine ⟨rfl, rfl, rfl, rfl, rfl, ?_, .inl rfl, fun p => .inl rfl⟩
    show (s.blockNumber + 1 - s.currentCycle.epochStart) / T.epoch = s.currentCycle.epoch ∨
      (s.blockNumber + 1 - s.currentCycle.epochStart) / T.epoch = s.currentCycle.epoch + 1
    rw [(hs.zero ht).1, (hs.zero ht).2, ht, Nat.zero_add, Nat.sub_zero]
    exact Nat.le_one_iff_eq_zero_or_eq_one.mp (Nat.div_le_self 1 T.epoch)
  · exact startEpoch_ticks (s := { s with blockNumber := s.blockNumber + 1 }) hs.lt
  · exact ⟨rfl, rfl, rfl, rfl, rfl, .inl rfl, .inl rfl, fun p => .inl rfl⟩

end Acurast.Compute
