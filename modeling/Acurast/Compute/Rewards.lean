import Acurast.Compute.Commitment

/-! The heartbeat: committed metrics, the reward for them, and the distribution to a commitment. -/

namespace Acurast.Compute

open Base

variable {A : Type} [DecidableEq A] {T : Config A}

/-- The metric a commitment is scored for, and the bonus metric on top of it. A violated commitment
gets no bonus. -/
def boundedMetrics (T : Config A) (committed metricSum bonusSum : Metric) : Metric × Metric :=
  if metricSum < committed then (metricSum, 0)
  else
    let maxBonus := T.busyWeightBonus.mulFloor committed
    (committed, if maxBonus < bonusSum then maxBonus else bonusSum)

def scoreOf (T : Config A) (weights : CommitmentWeights) (target : ℕ)
    (committed metricSum bonusSum : Metric) : Result (ℕ × ℕ) := do
  let (bounded, boundedBonus) := boundedMetrics T committed metricSum bonusSum
  let scoreLimit ← scoreLimitOf target bounded
  let score := min scoreLimit weights.totalRewardWeight
  let scoreWithoutDelegations := min scoreLimit weights.selfRewardWeight
  let product ← okOr (checkedMul 256 boundedBonus scoreWithoutDelegations) .calculationOverflow
  let bonusScore ← okOr (checkedDiv product bounded) .calculationOverflow
  let bonusScore := min (T.busyWeightBonus.mulFloor scoreWithoutDelegations) bonusScore
  let scoreWithBonus ← okOr (checkedAdd 256 score bonusScore) .calculationOverflow
  pure (score, scoreWithBonus)

/-- Scores one pool; the pools before one that fails keep their scores. -/
def scorePool (s : State T) (epoch : ℕ) (c : CommitmentId) (weights : CommitmentWeights)
    (poolId : PoolId) (metricSum metricWithBonusSum : Metric) : Result (State T) := do
  let budgets := StorageMap.getD s.stakeBasedRewards poolId default
  let bonusSum ← okOr (checkedSub metricWithBonusSum metricSum) .calculationOverflow
  whenSome (s.computeCommitments.lookup (c, poolId)) s fun committed => do
    let (score, scoreWithBonus) ← scoreOf T weights (budgets.get epoch).targetWeightPerCompute
      committed metricSum bonusSum
    let scores := (StorageMap.getD s.scores (c, poolId) default).set epoch (score, scoreWithBonus)
    let budgets := budgets.mutate epoch (fun budget =>
      { budget with totalScore := saturatingAdd 256 budget.totalScore scoreWithBonus }) false
    pure { s with
      scores := s.scores.insert (c, poolId) scores
      stakeBasedRewards := s.stakeBasedRewards.insert poolId budgets }

def scorePools (epoch : ℕ) (c : CommitmentId) (weights : CommitmentWeights) :
    State T → List (PoolId × Metric × Metric) → State T
  | s, [] => s
  | s, (poolId, metricSum, metricWithBonusSum) :: rest =>
    match scorePool s epoch c weights poolId metricSum metricWithBonusSum with
    | .ok s => scorePools epoch c weights s rest
    | .error _ => s

/-- The heartbeat drops the result of `score`, so a failure only ends it early. -/
def score (s : State T) (lastEpoch epoch : ℕ) (c : CommitmentId) (commitment : Commitment)
    (previousEpochMetricSums : List (PoolId × Metric × Metric)) : State T :=
  scorePools epoch c ((commitment.weights.getLatest lastEpoch).getD default) s
    previousEpochMetricSums

def scoreReward (budget : RewardBudget) (score : ℕ) : Result ℕ := do
  let product ← okOr (checkedMul 256 score budget.total) .calculationOverflow
  okOr (checkedDiv product budget.totalScore) .calculationOverflow

def poolRewards (budget : RewardBudget) (score scoreWithBonus : ℕ) : Result (ℕ × ℕ) := do
  let reward ← scoreReward budget score
  let bonusReward ← scoreReward budget (scoreWithBonus - score)
  pure (reward, saturatedInto 128 bonusReward)

structure PoolShares where
  selfAmount : ℕ
  delegationsAmount : ℕ

def poolShares (commission : Perbill) (weights : CommitmentWeights) (reward : ℕ) :
    Result PoolShares := do
  let selfProduct ← okOr (checkedMul 256 weights.selfRewardWeight reward) .calculationOverflow
  let selfShare ← okOr (checkedDiv selfProduct weights.totalRewardWeight) .calculationOverflow
  let delegationsShare ← okOr (checkedSub reward selfShare) .calculationOverflow
  let selfShareAmount := saturatedInto 128 selfShare
  let delegationsShareAmount := saturatedInto 128 delegationsShare
  let commissionAmount := commission.mulFloor delegationsShareAmount
  let selfAmount ← okOr (checkedAdd 128 selfShareAmount commissionAmount) .calculationOverflow
  let delegationsAmount ← okOr (checkedSub delegationsShareAmount commissionAmount)
    .calculationOverflow
  pure ⟨selfAmount, delegationsAmount⟩

structure Distribution where
  stakeBasedRewards : StorageMap PoolId (SlidingBuffer RewardBudget)
  committerStake : Stake
  delegationsReward : ℕ
  committerBonus : ℕ
  payouts : List (Payment (PoolId × ℕ))

/-- Distributes one pool's budget. The committer's accrued reward is written before the last
addition that can fail, and stays; the flag says whether the pool went through. -/
def distributePool (epoch : ℕ) (commission : Perbill) (weights : CommitmentWeights)
    (score scoreWithBonus : ℕ) (poolId : PoolId) (d : Distribution) : Distribution × Bool :=
  let budgets := StorageMap.getD d.stakeBasedRewards poolId default
  let budget := budgets.get epoch
  if budget.totalScore = 0 ∨ budget.total = 0 then (d, true)
  else match poolRewards budget score scoreWithBonus with
    | .error _ => (d, false)
    | .ok (reward, bonusReward) =>
      let d := { d with
        payouts := ⟨(poolId, epoch), reward + bonusReward, budget.total⟩ :: d.payouts }
      match (do
          let bonus ← okOr (checkedAdd 128 d.committerBonus bonusReward) .calculationOverflow
          let shares ← poolShares commission weights reward
          let accrued ← okOr (checkedAdd 128 d.committerStake.accruedReward shares.selfAmount)
            .calculationOverflow
          pure (shares, bonus, accrued) : Result (PoolShares × ℕ × ℕ)) with
        | .error _ => (d, false)
        | .ok (shares, committerBonus, accruedReward) =>
          let committerStake := { d.committerStake with accruedReward }
          match checkedAdd 128 d.delegationsReward shares.delegationsAmount with
          | none => ({ d with committerStake }, false)
          | some delegationsReward =>
            let amount := saturatingAdd 128 shares.selfAmount shares.delegationsAmount
            let budgets := budgets.mutate epoch (fun v =>
              { v with distributed := saturatingAdd 128 v.distributed amount }) false
            ({ d with
              stakeBasedRewards := d.stakeBasedRewards.insert poolId budgets
              committerStake, delegationsReward, committerBonus }, true)

def distributePools (s : State T) (epoch : ℕ) (c : CommitmentId) (commission : Perbill)
    (weights : CommitmentWeights) : List PoolId → Distribution → Distribution × Bool
  | [], d => (d, true)
  | poolId :: rest, d =>
    let (score, scoreWithBonus) := (StorageMap.getD s.scores (c, poolId) default).get epoch
    match distributePool epoch commission weights score scoreWithBonus poolId d with
    | (d, true) => distributePools s epoch c commission weights rest d
    | (d, false) => (d, false)

def raiseRewardIndex (poolRewards : MemoryBuffer ℕ PoolReward) (created weight reward : ℕ) :
    Result (MemoryBuffer ℕ PoolReward) := do
  let scaled ← okOr (checkedMul 256 reward perTokenDecimals) .calculationOverflow
  let extra ← okOr (checkedDiv scaled weight) .calculationOverflow
  okOr (poolRewards.mutate created fun r =>
    { r with rewardPerWeight := saturatingAdd 256 r.rewardPerWeight extra }) .internalError

def applyDistribution (s : State T) (c : CommitmentId) (commitment : Commitment)
    (created weight : ℕ) (d : Distribution) (completed : Bool)
    (raised : Result (MemoryBuffer ℕ PoolReward)) : State T × Commitment × ℕ :=
  let s := { s with stakeBasedRewards := d.stakeBasedRewards, payouts := d.payouts }
  let commitment := { commitment with stake := some d.committerStake }
  if completed = false then (s, commitment, 0)
  else if weight = 0 ∨ d.delegationsReward = 0 then (s, commitment, d.committerBonus)
  else match raised with
    | .error _ => (s, commitment, 0)
    | .ok poolRewards =>
      (s.log (.credited c created d.delegationsReward), { commitment with poolRewards },
        d.committerBonus)

/-- Distributes to one commitment. The heartbeat takes a failure for a zero bonus and keeps what
was written before it. -/
def distribute (s : State T) (epoch : ℕ) (c : CommitmentId) (commitment : Commitment)
    (poolIds : List PoolId) : State T × Commitment × ℕ :=
  match commitment.stake with
  | none => (s, commitment, 0)
  | some committerStake =>
    let weights := (commitment.weights.getLatest epoch).getD default
    let (d, completed) := distributePools s epoch c commitment.commission weights poolIds
      ⟨s.stakeBasedRewards, committerStake, 0, 0, s.payouts⟩
    applyDistribution s c commitment committerStake.created weights.delegationsRewardWeight d
      completed (raiseRewardIndex commitment.poolRewards committerStake.created
        weights.delegationsRewardWeight d.delegationsReward)

def claimRatio (s : State T) (claimEpoch : ℕ) :
    List (PoolId × Metric × Metric) → Perquintill → Result Perquintill
  | [], ratio => pure ratio
  | (poolId, _, metricWithBonusSum) :: rest, ratio => do
    let pool ← okOr (s.metricPools.lookup poolId) .poolNotFound
    let poolTotal := pool.totalWithBonus.get claimEpoch
    let weighted : Perquintill :=
      if poolTotal = 0 then PerThing.zero
      else (pool.reward.get claimEpoch).saturatingMul
        (PerThing.fromRational metricWithBonusSum poolTotal)
    claimRatio s claimEpoch rest (ratio.saturatingAdd weighted)

def doClaim (s : State T) (claimEpoch : ℕ)
    (claimEpochMetricSums : List (PoolId × Metric × Metric)) (totalReward : ℕ) : Result ℕ :=
  if totalReward = 0 then pure 0
  else do
    let ratio ← claimRatio s claimEpoch claimEpochMetricSums PerThing.zero
    pure (ratio.mulFloor totalReward)

structure RewardInfo where
  reward : ℕ
  metricsRewardClaimed : Bool
  stakedComputeRewardClaimed : Bool
  deriving DecidableEq, Inhabited

def rewardCommitment (s : State T) (c : CommitmentId) (poolIds : List PoolId)
    (previousEpochMetricSums : List (PoolId × Metric × Metric)) : State T × ℕ :=
  match s.commitments.lookup c with
  | none => (s, 0)
  | some commitment =>
    let epoch := s.currentCycle.epoch
    if epoch ≤ commitment.lastScoringEpoch then (s, 0)
    else
      let lastEpoch := epoch - 1
      let (s, commitment, bonus) := distribute s lastEpoch c
        { commitment with lastScoringEpoch := epoch } poolIds
      let s := score s lastEpoch epoch c commitment previousEpochMetricSums
      ({ s with commitments := s.commitments.insert c commitment }, bonus)

def reward (s : State T) (previousEpochMetricSums : List (PoolId × Metric × Metric))
    (managerId : ManagerId) (poolIds : List PoolId) (totalMetricReward : ℕ) :
    State T × RewardInfo :=
  let lastEpoch := s.currentCycle.epoch - 1
  let metricRewards :=
    match doClaim s lastEpoch previousEpochMetricSums totalMetricReward with
    | .ok r => r
    | .error _ => 0
  match s.backingLookup.lookup managerId with
  | none => (s, ⟨metricRewards, true, false⟩)
  | some c =>
    let (s, bonus) := rewardCommitment s c poolIds previousEpochMetricSums
    (s, ⟨saturatingAdd 128 metricRewards bonus, true, true⟩)

structure MetricPoolUpdateInfo where
  epochSum : Option (Metric × Metric)
  poolTotal : Option (Metric × Perquintill)

def updateMetricsEpochSum (s : State T) (managerId : ManagerId) (poolId : PoolId)
    (metric : Metric) (bonus : Bool) : State T × MetricPoolUpdateInfo :=
  let epoch := s.currentCycle.epoch
  let metricWithBonus :=
    if bonus then saturatingAdd 128 metric (T.busyWeightBonus.mulFloor metric) else metric
  let (s, poolTotal) :=
    match s.metricPools.lookup poolId with
    | none => (s, none)
    | some pool =>
      let pool := (pool.add epoch metric).addBonus epoch metricWithBonus
      ({ s with metricPools := s.metricPools.insert poolId pool },
        some (pool.total.get (epoch - 1), pool.reward.get (epoch - 1)))
  let old := StorageMap.getD s.metricsEpochSum (managerId, poolId) default
  let sum := old.mutate epoch (fun v =>
    (saturatingAdd 128 v.1 metric, saturatingAdd 128 v.2 metricWithBonus)) false
  ({ s with metricsEpochSum := s.metricsEpochSum.insert (managerId, poolId) sum },
    ⟨if old.epoch < epoch ∧ epoch - old.epoch = 1 then some (sum.get old.epoch) else none,
      poolTotal⟩)

/-- What the commits of a heartbeat reveal about the epoch before; the source stores an empty list
as none. -/
structure CommitMetricsInfo where
  previousMetrics : List (PoolId × Metric)
  previousPoolTotals : List (PoolId × Metric × Perquintill)
  previousSums : List (PoolId × Metric × Metric)

def countMetric (s : State T) (managerId : ManagerId) (poolId : PoolId)
    (previous : Option Metric) (metric : Metric) (bonus : Bool) (info : CommitMetricsInfo) :
    State T × CommitMetricsInfo :=
  let (s, update) := updateMetricsEpochSum s managerId poolId metric bonus
  (s, { previousMetrics := info.previousMetrics ++ (previous.map fun m => (poolId, m)).toList
        previousPoolTotals :=
          info.previousPoolTotals ++ (update.poolTotal.map fun t => (poolId, t)).toList
        previousSums := info.previousSums ++ (update.epochSum.map fun v => (poolId, v)).toList })

def commitNewMetrics (processor : A) (managerId : ManagerId) (active : Bool) :
    State T → List MetricInput → CommitMetricsInfo → State T × CommitMetricsInfo
  | s, [], info => (s, info)
  | s, (poolId, numerator, denominator) :: rest, info =>
    match FixedU128.checkedFromRational numerator (if denominator = 0 then 1 else denominator) with
    | none => commitNewMetrics processor managerId active s rest info
    | some metric =>
      let epoch := s.currentCycle.epoch
      let current := s.metrics.lookup (processor, poolId)
      -- the first value committed for an epoch wins
      if current.all (·.epoch < epoch) then
        let s := { s with metrics := s.metrics.insert (processor, poolId) ⟨epoch, metric⟩ }
        if active then
          let (s, info) := countMetric s managerId poolId (current.map (·.metric)) metric false info
          commitNewMetrics processor managerId active s rest info
        else commitNewMetrics processor managerId active s rest info
      else commitNewMetrics processor managerId active s rest info

def reuseMetricsOf (processor : A) (managerId : ManagerId) (active : Bool) :
    State T → List (PoolId × MetricCommit) → CommitMetricsInfo → State T × CommitMetricsInfo
  | s, [], info => (s, info)
  | s, (poolId, commit) :: rest, info =>
    let s := { s with metrics :=
      s.metrics.insert (processor, poolId) ⟨s.currentCycle.epoch, commit.metric⟩ }
    if active then
      let (s, info) := countMetric s managerId poolId (some commit.metric) commit.metric true info
      reuseMetricsOf processor managerId active s rest info
    else reuseMetricsOf processor managerId active s rest info

def reuseMetrics (s : State T) (processor : A) (managerId : ManagerId) (active : Bool) :
    State T × CommitMetricsInfo :=
  let epoch := s.currentCycle.epoch
  let toUpdate := (iterPrefix s.metrics processor).filter fun p =>
    p.2.epoch < epoch ∧ epoch - p.2.epoch < T.metricValidity
  reuseMetricsOf processor managerId active s toUpdate ⟨[], [], []⟩

def contributionRatio (totals : List (PoolId × Metric × Perquintill)) :
    List (PoolId × Metric) → Perquintill → Perquintill
  | [], ratio => ratio
  | (poolId, metric) :: rest, ratio =>
    match totals.find? (·.1 = poolId) with
    | none => contributionRatio totals rest ratio
    | some (_, poolTotal, rewardRatio) =>
      let weighted : Perquintill :=
        if poolTotal = 0 then PerThing.zero
        else rewardRatio.saturatingMul (PerThing.fromRational metric poolTotal)
      contributionRatio totals rest (ratio.saturatingAdd weighted)

def CommitMetricsInfo.computeRewardContribution (info : CommitMetricsInfo) (totalReward : ℕ) :
    Option ℕ :=
  if info.previousMetrics = [] ∨ info.previousPoolTotals = [] then none
  else some ((contributionRatio info.previousPoolTotals info.previousMetrics PerThing.zero).mulFloor
    totalReward)

def heartbeatProcessor (s : State T) (processor : A) : ProcessorState :=
  let cycle := s.currentCycle
  let p := (s.processors.lookup processor).getD
    (ProcessorState.initial ((s.blockNumber - cycle.epochStart) % T.epoch)
      (saturatingAdd 32 s.blockNumber T.warmupPeriod))
  let status :=
    match p.status with
    | .warmupUntil b => if b ≤ s.blockNumber then .active else .warmupUntil b
    | .active => .active
  { p with status, committed := cycle.epoch }

def commitMetrics (s : State T) (processor : A) (managerId : ManagerId) (active : Bool)
    (metrics : List MetricInput) : State T × CommitMetricsInfo :=
  if metrics ≠ [] then commitNewMetrics processor managerId active s metrics ⟨[], [], []⟩
  else reuseMetrics s processor managerId active

def rewardActive (s : State T) (processor : A) (p : ProcessorState) (managerId : ManagerId)
    (poolIds : List PoolId) (info : CommitMetricsInfo) : State T × RewardInfo :=
  let totalMetricReward := s.computeBasedRewards.get (s.currentCycle.epoch - 1)
  let p := { p with rewardContribution :=
    (info.computeRewardContribution totalMetricReward).getD p.rewardContribution }
  let s := { s with processors := s.processors.insert processor p }
  if info.previousSums = [] then (s, default)
  else reward s info.previousSums managerId poolIds totalMetricReward

def doCommit (s : State T) (processor : A) (managerId : ManagerId) (metrics : List MetricInput)
    (poolIds : List PoolId) : State T × RewardInfo :=
  let p := heartbeatProcessor s processor
  let active := decide (p.status = .active)
  let (s, info) := commitMetrics s processor managerId active metrics
  if active = false then ({ s with processors := s.processors.insert processor p }, default)
  else rewardActive s processor p managerId poolIds info

def commit (s : State T) (processor manager : A) (managerId : ManagerId)
    (metrics : List MetricInput) : State T × RewardInfo :=
  let poolIds := (List.range s.lastMetricPoolId).map (· + 1)
  let (s, info) := doCommit s processor managerId metrics poolIds
  if info.reward = 0 then (s, info)
  else
    let rewards := (s.managerMetricRewards.lookup managerId).getD ⟨0, 0⟩
    let claimed := s.currentCycle.epoch - 1
    match T.transfer s.world T.palletAccount manager info.reward with
    | some w => ({ s with
      world := w
      managerMetricRewards := s.managerMetricRewards.insert managerId
        ⟨saturatingAdd 128 rewards.paid info.reward, claimed⟩ }, info)
    | none => ({ s with
      managerMetricRewards := s.managerMetricRewards.insert managerId ⟨rewards.paid, claimed⟩ },
      info)

end Acurast.Compute
