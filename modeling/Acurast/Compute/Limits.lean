import Acurast.Compute.Funds

/-! The limits a commitment has to respect: committed metrics, stake per metric, delegation ratio. -/

namespace Acurast.Compute

open Base

variable {A : Type} {T : Config A}

/-- Stores one committed metric, if it is at most what was measured in the last epoch. The flag
says whether the metric counts. -/
def storeCommitment (s : State T) (managerId : ManagerId) (c : CommitmentId)
    (commitment : ComputeCommitment) : Result (State T × Bool) := do
  let _ ← okOr (s.metricPools.lookup commitment.poolId) .poolNotFound
  let lastEpoch ← okOr (checkedSub s.currentCycle.epoch 1) .cannotCommit
  let metricSum :=
    ((StorageMap.getD s.metricsEpochSum (managerId, commitment.poolId) default).get lastEpoch).1
  ensure (commitment.metric ≤ metricSum) .maxMetricCommitmentExceeded
  if commitment.metric = 0 then pure (s, false)
  else do
    let quotient ← okOr (FixedU128.checkedDiv commitment.metric metricSum)
      .maxMetricCommitmentExceeded
    let ratio : Perquintill := PerThing.fromParts (quotient % 2 ^ 64)
    ensure (ratio ≤ T.maxMetricCommitmentRatio) .maxMetricCommitmentExceeded
    ensure ((s.computeCommitments.lookup (c, commitment.poolId)).all (· ≤ commitment.metric))
      .committedMetricCannotDecrease
    pure ({ s with computeCommitments :=
      s.computeCommitments.insert (c, commitment.poolId) commitment.metric }, true)

def storeCommitments (managerId : ManagerId) (c : CommitmentId) :
    State T → List ComputeCommitment → Result (State T × ℕ)
  | s, [] => pure (s, 0)
  | s, commitment :: rest => do
    let (s, counted) ← storeCommitment s managerId c commitment
    let (s, count) ← storeCommitments managerId c s rest
    pure (s, if counted then count + 1 else count)

def validateMaxMetricStoreCommitments (s : State T) (c : CommitmentId)
    (commitment : List ComputeCommitment) : Result (State T) := do
  let managerId ← okOr (s.backings.lookup c) .noManagerBackingCommitment
  let (s, count) ← storeCommitments managerId c s commitment
  ensure (0 < count) .zeroMetricsForValidPools
  pure s

def checkMetricRatios (s : State T) (rewardWeight : ℕ) : List (PoolId × Metric) → Result Unit
  | [] => pure ()
  | (poolId, metric) :: rest =>
    match s.metricPools.lookup poolId with
    | none => checkMetricRatios s rewardWeight rest
    | some _ => do
      ensure (metric ≠ 0) .maxStakeMetricRatioExceeded
      let target := ((StorageMap.getD s.stakeBasedRewards poolId default).get
        s.currentCycle.epoch).targetWeightPerCompute
      if target = 0 then checkMetricRatios s rewardWeight rest
      else do
        let scaled ← okOr (checkedMul 256 rewardWeight perTokenDecimals) .calculationOverflow
        let scaled ← okOr (checkedMul 256 scaled fixedU128Decimals) .calculationOverflow
        let actual ← okOr (checkedDiv scaled metric) .calculationOverflow
        ensure (actual ≤ target) .maxStakeMetricRatioExceeded
        checkMetricRatios s rewardWeight rest

def validateMaxStakeMetricRatio (s : State T) (c : CommitmentId) : Result Unit := do
  let commitment ← okOr (s.commitments.lookup c) .commitmentNotFound
  let weights := (commitment.weights.get s.currentCycle.epoch).getD default
  checkMetricRatios s weights.totalRewardWeight (iterPrefix s.computeCommitments c)

def scoreLimitOf (target : ℕ) (metric : Metric) : Result ℕ := do
  let product ← okOr (checkedMul 256 target metric) .calculationOverflow
  let quotient ← okOr (checkedDiv product fixedU128Decimals) .calculationOverflow
  okOr (checkedDiv quotient perTokenDecimals) .calculationOverflow

def overstakedIn (s : State T) (lastEpoch : ℕ) (managerId : ManagerId) (totalWeight : ℕ) :
    List (PoolId × Metric) → Result Bool
  | [] => pure false
  | (poolId, committedMetricSum) :: rest =>
    let target := ((StorageMap.getD s.stakeBasedRewards poolId default).get
      s.currentCycle.epoch).targetWeightPerCompute
    if target = 0 then overstakedIn s lastEpoch managerId totalWeight rest
    else do
      let metricSum := ((StorageMap.getD s.metricsEpochSum (managerId, poolId) default).get
        lastEpoch).1
      let bounded := if metricSum < committedMetricSum then metricSum else committedMetricSum
      let scoreLimit ← scoreLimitOf target bounded
      if scoreLimit < totalWeight then pure true
      else overstakedIn s lastEpoch managerId totalWeight rest

def isCommitmentOverstaked (s : State T) (c : CommitmentId) (commitment : Commitment) :
    Result Bool := do
  let epoch := s.currentCycle.epoch
  let lastEpoch ← okOr (checkedSub epoch 1) .internalError
  let managerId ← okOr (s.backings.lookup c) .noManagerBackingCommitment
  let weights := (commitment.weights.getLatest epoch).getD default
  overstakedIn s lastEpoch managerId weights.totalRewardWeight
    (iterPrefix s.computeCommitments c)

def delegationWeightRatio (epoch : ℕ) (commitment : Commitment) : Result Perquintill := do
  let w := (commitment.weights.getLatest epoch).getD default
  let totalWeight ← okOr (checkedAdd 256 w.selfSlashWeight w.delegationsRewardWeight)
    .calculationOverflow
  let nominator := saturatedInto 128 w.delegationsRewardWeight
  let denominator := saturatedInto 128 totalWeight
  ensure (nominator ≤ denominator) .maxDelegationRatioExceeded
  pure (if 0 < denominator then PerThing.fromRational nominator denominator else PerThing.zero)

end Acurast.Compute
