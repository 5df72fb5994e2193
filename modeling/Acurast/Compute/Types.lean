import Acurast.Base.Checked
import Acurast.Base.Frame
import Acurast.Base.Outcome
import Acurast.Base.PerThing
import Acurast.Base.Spending
import Acurast.Base.Storage
import Acurast.Compute.Buffers

/-! Data, configuration and storage of the compute pallet. Numbers are naturals, with the width written
at each operation that can reach it. What the pallet calls in other pallets is a parameter over an
outside world. -/

namespace Acurast.Compute

open Base

abbrev PoolId := ℕ
abbrev ManagerId := ℕ
abbrev CommitmentId := ℕ
abbrev Metric := FixedU128
abbrev MetricPoolName := Vector UInt8 24
abbrev MetricPoolConfigName := Vector UInt8 24
abbrev MetricPoolConfigValue := MetricPoolConfigName × ℕ × ℕ
abbrev MetricInput := PoolId × ℕ × ℕ

def configValuesMaxLength : ℕ := 20

def perTokenDecimals : ℕ := 10 ^ 30

def fixedU128Decimals : ℕ := 10 ^ 18

structure RewardBudget where
  total : ℕ
  distributed : ℕ
  targetWeightPerCompute : ℕ
  totalScore : ℕ
  deriving DecidableEq, Inhabited

def RewardBudget.new (total targetWeightPerCompute : ℕ) : RewardBudget :=
  ⟨total, 0, targetWeightPerCompute, 0⟩

structure Cycle where
  epoch : ℕ
  epochStart : ℕ
  deriving DecidableEq, Inhabited

inductive ModifyMetricPoolConfig where
  | replace (config : List MetricPoolConfigValue)
  | update (add : List MetricPoolConfigValue) (remove : List MetricPoolConfigName)

inductive ProcessorStatus where
  | warmupUntil (block : ℕ)
  | active
  deriving DecidableEq

structure MetricPool where
  config : List MetricPoolConfigValue
  name : MetricPoolName
  reward : ProvisionalBuffer Perquintill
  total : SlidingBuffer FixedU128
  totalWithBonus : SlidingBuffer FixedU128

def MetricPool.add (p : MetricPool) (epoch : ℕ) (summand : FixedU128) : MetricPool :=
  { p with total := p.total.mutate epoch (saturatingAdd 128 · summand) false }

def MetricPool.addBonus (p : MetricPool) (epoch : ℕ) (summand : FixedU128) : MetricPool :=
  { p with totalWithBonus := p.totalWithBonus.mutate epoch (saturatingAdd 128 · summand) false }

structure MetricCommit where
  epoch : ℕ
  metric : Metric
  deriving DecidableEq

structure ProcessorState where
  epochOffset : ℕ
  committed : ℕ
  status : ProcessorStatus
  rewardContribution : ℕ
  deriving DecidableEq

def ProcessorState.initial (epochOffset warmupEnd : ℕ) : ProcessorState :=
  ⟨epochOffset, 0, .warmupUntil warmupEnd, 0⟩

structure MetricsRewardState where
  paid : ℕ
  claimed : ℕ
  deriving DecidableEq

structure ComputeCommitment where
  poolId : PoolId
  metric : Metric
  deriving DecidableEq

structure Stake where
  amount : ℕ
  rewardableAmount : ℕ
  created : ℕ
  cooldownPeriod : ℕ
  cooldownStarted : Option ℕ
  accruedReward : ℕ
  accruedSlash : ℕ
  allowAutoCompound : Bool
  paid : ℕ
  deriving DecidableEq

def Stake.new (amount created cooldownPeriod : ℕ) (allowAutoCompound : Bool) : Stake :=
  ⟨amount, amount, created, cooldownPeriod, none, 0, 0, allowAutoCompound, 0⟩

structure CommitmentWeights where
  selfRewardWeight : ℕ
  selfSlashWeight : ℕ
  delegationsRewardWeight : ℕ
  delegationsSlashWeight : ℕ
  deriving DecidableEq, Inhabited

def CommitmentWeights.totalRewardWeight (w : CommitmentWeights) : ℕ :=
  saturatingAdd 256 w.selfRewardWeight w.delegationsRewardWeight

def CommitmentWeights.totalSlashWeight (w : CommitmentWeights) : ℕ :=
  saturatingAdd 256 w.selfSlashWeight w.delegationsSlashWeight

structure PoolReward where
  rewardPerWeight : ℕ
  slashPerWeight : ℕ
  deriving DecidableEq, Inhabited

structure Commitment where
  stake : Option Stake
  commission : Perbill
  delegationsTotalAmount : ℕ
  delegationsTotalRewardableAmount : ℕ
  weights : MemoryBuffer ℕ CommitmentWeights
  poolRewards : MemoryBuffer ℕ PoolReward
  lastScoringEpoch : ℕ
  lastSlashingEpoch : ℕ
  deriving DecidableEq

structure Delegation where
  stake : Stake
  rewardWeight : ℕ
  slashWeight : ℕ
  rewardDebt : ℕ
  slashDebt : ℕ
  deriving DecidableEq

inductive LockReason where
  | staking
  | delegation (commitmentId : CommitmentId)

inductive StakeChange where
  | add (amount : ℕ)
  | sub (amount : ℕ)

/-- The pallet's errors, and three that are not its own: an error handed through from another
pallet, a rejected origin, and the panic of a conversion that does not fit. -/
inductive Error where
  | poolNameMustBeUnique | calculationOverflow | poolNotFound | rewardUpdateInvalid | alreadyBacking
  | noBackingOfferFound | alreadyDelegating | cooldownAlreadyStarted | belowMinCooldownPeriod
  | aboveMaxCooldownPeriod | cooldownPeriodCannotDecrease | commissionCannotIncrease
  | committedMetricCannotDecrease | belowMinDelegation
  | delegationCooldownMustBeShorterThanCommitment | maxDelegationRatioExceeded
  | maxMetricCommitmentExceeded | zeroMetricsForValidPools | minStakeUnmet | insufficientBalance
  | cooldownNotStarted | cooldownNotEnded | notDelegating | commitmentNotFound | alreadyCommitted
  | noManagerBackingCommitment | noOwnerOfCommitmentId | internalError
  | internalErrorReadingOutdated | maxStakeMetricRatioExceeded | commitmentInCooldown
  | redelegateBlocked | alreadyDelegatingToRedelegationCommitter | autoCompoundNotAllowed
  | cannotCommit | staleDelegationMustBeEnded | cannotKickout | alreadySlashed | notSlashable
  | delegationInCooldown | commissionIncreaseTooLarge | commissionIncreaseTooSoon | cannotCreatePool
  | invalidTotalPoolRewards
  | outside | badOrigin | panicked
  deriving DecidableEq

/-- Constants, and the operations of other pallets. `World` is everything outside the pallet:
balances, locks, holds and the owners of the identifiers. -/
structure Config (A : Type) where
  palletAccount : A
  epoch : ℕ
  epoch_pos : 0 < epoch
  busyWeightBonus : Perquintill
  metricValidity : ℕ
  maxPools : ℕ
  maxMetricCommitmentRatio : Perquintill
  minCooldownPeriod : ℕ
  maxCooldownPeriod : ℕ
  targetWeightPerComputeMultiplier : FixedU128
  targetStakedTokenSupply : Perquintill
  minDelegation : ℕ
  maxDelegationRatio : Perquintill
  cooldownRewardRatio : Perquintill
  redelegationBlockingPeriod : ℕ
  minStake : ℕ
  baseSlashRation : Perquintill
  slashRewardRatio : Perquintill
  maxCommissionIncreasePerDay : Perbill
  blocksPerDay : ℕ
  warmupPeriod : ℕ
  inflationPerEpoch : ℕ
  inflationStakedComputeRatio : Perquintill
  inflationMetricsRatio : Perquintill
  inflationCollatorsRatio : Perquintill
  createModifyPoolOrigin : Origin A → Bool
  operatorOrigin : Origin A → Bool
  World : Type
  managerIdFor : World → A → Option ManagerId
  commitmentIdFor : World → A → Option CommitmentId
  ownerFor : World → CommitmentId → Option A
  createCommitmentId : World → CommitmentId → A → Option World
  totalIssuance : World → ℕ
  totalBalance : World → A → ℕ
  freeBalance : World → A → ℕ
  balanceLocked : World → A → ℕ
  setLock : World → A → ℕ → World
  removeLock : World → A → World
  /-- `Currency::transfer` with `KeepAlive`, from the first account to the second. -/
  transfer : World → A → A → ℕ → Option World
  /-- `Balanced::withdraw` with best effort, expendable and forced; also the amount taken. -/
  withdraw : World → A → ℕ → Option (World × ℕ)
  /-- `Slashable::slash`; also the amount taken. -/
  slash : World → A → ℕ → Option (World × ℕ)
  issue : World → ℕ → World
  resolve : World → A → ℕ → Option World
  burn : World → ℕ → World
  onUnbalanced : World → ℕ → World
  author : World → Option A

/-- A trace of what the pallet did, read by no function of it. The generation of a delegation pool
is the creation time of the committer's stake. -/
inductive Entry (A : Type) where
  /-- A distribution raised the reward index of a generation by this reward. -/
  | credited (c : CommitmentId) (generation amount : ℕ)
  /-- A delegation of the generation accrued a reward and a slash. -/
  | accrued (who : A) (c : CommitmentId) (generation reward slash : ℕ)
  | withdrew (who : A) (c : CommitmentId) (amount : ℕ)
  | paid (who : A) (c : CommitmentId) (amount : ℕ)
  | slashed (c : CommitmentId) (committer : A) (amount : ℕ)
  /-- A slash call charged a pool for this many epochs up to the last one. -/
  | charged (c : CommitmentId) (pool : PoolId) (lastEpoch missedEpochs : ℕ)
  deriving DecidableEq

structure State {A : Type} (T : Config A) where
  world : T.World
  blockNumber : ℕ
  currentCycle : Cycle
  lastMetricPoolId : PoolId
  metricPools : StorageMap PoolId MetricPool
  metricPoolLookup : StorageMap MetricPoolName PoolId
  processors : StorageMap A ProcessorState
  managerMetricRewards : StorageMap ManagerId MetricsRewardState
  metrics : StorageMap (A × PoolId) MetricCommit
  computeCommitments : StorageMap (CommitmentId × PoolId) Metric
  lastCommissionIncrease : StorageMap CommitmentId (ℕ × Perbill)
  scores : StorageMap (CommitmentId × PoolId) (SlidingBuffer (ℕ × ℕ))
  metricsEpochSum : StorageMap (ManagerId × PoolId) (SlidingBuffer (Metric × Metric))
  backingOffers : StorageMap A ManagerId
  backings : StorageMap CommitmentId ManagerId
  backingLookup : StorageMap ManagerId CommitmentId
  nextCommitmentId : CommitmentId
  commitments : StorageMap CommitmentId Commitment
  totalStake : ℕ
  delegations : StorageMap (A × CommitmentId) Delegation
  delegatorTotal : StorageMap A ℕ
  computeBasedRewards : SlidingBuffer ℕ
  stakeBasedRewards : StorageMap PoolId (SlidingBuffer RewardBudget)
  collatorRewards : ℕ
  inflationEnabled : Bool
  history : List (Entry A)
  /-- What the distributions computed for a pool and an epoch, with the total of its budget. -/
  payouts : List (Payment (PoolId × ℕ))

variable {A : Type} {T : Config A}

def State.genesis (T : Config A) (w : T.World) : State T where
  world := w
  blockNumber := 0
  currentCycle := default
  lastMetricPoolId := 0
  metricPools := ∅
  metricPoolLookup := ∅
  processors := ∅
  managerMetricRewards := ∅
  metrics := ∅
  computeCommitments := ∅
  lastCommissionIncrease := ∅
  scores := ∅
  metricsEpochSum := ∅
  backingOffers := ∅
  backings := ∅
  backingLookup := ∅
  nextCommitmentId := 0
  commitments := ∅
  totalStake := 0
  delegations := ∅
  delegatorTotal := ∅
  computeBasedRewards := default
  stakeBasedRewards := ∅
  collatorRewards := 0
  inflationEnabled := false
  history := []
  payouts := []

/-- What a modelled call returns: its state, with the result where it has one. -/
abbrev Result (α : Type) := Except Error α

end Acurast.Compute
