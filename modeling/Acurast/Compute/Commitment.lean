import Acurast.Compute.Delegation

/-! The life of a commitment: staking, staking more, cooling down, ending, and being slashed. -/

namespace Acurast.Compute

open Base

variable {A : Type} [DecidableEq A] {T : Config A}

def openPoolRewards (existing : Option Commitment) (created : ℕ) :
    Result (MemoryBuffer ℕ PoolReward) :=
  match existing with
  | some commitment => okOr (commitment.poolRewards.set created default) .internalErrorReadingOutdated
  | none => pure (MemoryBuffer.newWith created default)

def stakeFor (s : State T) (who : A) (amount cooldownPeriod : ℕ) (commission : Perbill)
    (allowAutoCompound : Bool) : Result (State T) := do
  ensure (amount ≠ 0 ∧ T.minStake ≤ amount) .minStakeUnmet
  ensure (T.minCooldownPeriod ≤ cooldownPeriod) .belowMinCooldownPeriod
  ensure (cooldownPeriod ≤ T.maxCooldownPeriod) .aboveMaxCooldownPeriod
  let s ← lockFunds s who amount .staking
  let c ← okOr (T.commitmentIdFor s.world who) .noOwnerOfCommitmentId
  let existing := s.commitments.lookup c
  ensure (existing.bind (·.stake) = none) .alreadyCommitted
  let created := s.blockNumber
  let weight ← weightOf T amount cooldownPeriod
  let s ← updateTotalStake s (.add amount)
  let poolRewards ← openPoolRewards existing created
  let commitment : Commitment := {
    stake := some (Stake.new amount created cooldownPeriod allowAutoCompound)
    commission
    delegationsTotalAmount := 0
    delegationsTotalRewardableAmount := 0
    weights := MemoryBuffer.newWith s.currentCycle.epoch ⟨weight, weight, 0, 0⟩
    poolRewards
    lastScoringEpoch := existing.elim 0 (·.lastScoringEpoch)
    lastSlashingEpoch := existing.elim 0 (·.lastSlashingEpoch) }
  pure { s with commitments := s.commitments.insert c commitment }

def changeCommission (s : State T) (c : CommitmentId) (commitment : Commitment)
    (commission : Perbill) : Result (State T × Commitment) :=
  if commitment.commission < commission then do
    let overstaked ← isCommitmentOverstaked s c commitment
    ensure (overstaked = true) .commissionCannotIncrease
    let stakeCreatedBlock := commitment.stake.elim s.blockNumber (·.created)
    let lastIncreaseBlock :=
      (s.lastCommissionIncrease.lookup c).elim stakeCreatedBlock (·.1)
    ensure (T.blocksPerDay ≤ s.blockNumber - lastIncreaseBlock) .commissionIncreaseTooSoon
    ensure (commission.saturatingSub commitment.commission ≤ T.maxCommissionIncreasePerDay)
      .commissionIncreaseTooLarge
    pure ({ s with lastCommissionIncrease :=
      s.lastCommissionIncrease.insert c (s.blockNumber, commitment.commission) },
      { commitment with commission })
  else pure (s, { commitment with commission })

def raiseStake (s : State T) (who : A) (stake : Stake) (extraAmount : ℕ) :
    Result (State T × Stake) :=
  if extraAmount = 0 then pure (s, stake)
  else do
    let amount ← okOr (checkedAdd 128 stake.amount extraAmount) .calculationOverflow
    let s ← lockFunds s who amount .staking
    pure (s, { stake with amount, rewardableAmount := amount })

/-- The overstake check after a raise. The requested period is compared with the one that was just
stored, so only a raise of the amount is checked. -/
def checkStakedMore (s : State T) (c : CommitmentId) (commitment : Commitment) (extraAmount : ℕ)
    (cooldownPeriod : Option ℕ) (stored : ℕ) : Result Unit :=
  if extraAmount ≠ 0 ∨ cooldownPeriod.any (stored < ·) then do
    let overstaked ← isCommitmentOverstaked s c commitment
    ensure (overstaked = false) .maxStakeMetricRatioExceeded
  else pure ()

def stakeMoreFor (s : State T) (who : A) (extraAmount : ℕ) (cooldownPeriod : Option ℕ)
    (commission : Option Perbill) (allowAutoCompound : Option Bool) : Result (State T) := do
  let c ← okOr (T.commitmentIdFor s.world who) .noOwnerOfCommitmentId
  let commitment ← okOr (s.commitments.lookup c) .commitmentNotFound
  let (s, commitment) ← whenSome commission (s, commitment) (changeCommission s c commitment)
  let stake ← okOr commitment.stake .commitmentNotFound
  ensure (stake.cooldownStarted = none) .commitmentInCooldown
  let (s, stake) ← raiseStake s who stake extraAmount
  ensure (stake.cooldownPeriod ≤ cooldownPeriod.getD stake.cooldownPeriod)
    .cooldownPeriodCannotDecrease
  let stake := { stake with
    cooldownPeriod := cooldownPeriod.getD stake.cooldownPeriod
    allowAutoCompound := allowAutoCompound.getD stake.allowAutoCompound }
  let weight ← weightOf T stake.rewardableAmount stake.cooldownPeriod
  let weights ← okOr (commitment.weights.mutate s.currentCycle.epoch fun w =>
    { w with selfRewardWeight := weight, selfSlashWeight := weight }) .internalErrorReadingOutdated
  let commitment := { commitment with stake := some stake, weights }
  let s ← updateTotalStake s (.add extraAmount)
  checkStakedMore s c commitment extraAmount cooldownPeriod stake.cooldownPeriod
  pure { s with commitments := s.commitments.insert c commitment }

/-- Lowers a committer's stake by a slash. The stake stops at zero, the total stake does not. -/
def decreaseCommitterStake (s : State T) (committer : A) (c : CommitmentId)
    (decreaseAmount : ℕ) : Result (State T) := do
  let commitment ← okOr (s.commitments.lookup c) .commitmentNotFound
  let stake ← okOr commitment.stake .commitmentNotFound
  let amount := stake.amount - decreaseAmount
  let rewardableAmount := rewardableOf T stake amount
  let s ← lockFunds s committer amount .staking
  let weight ← weightOf T rewardableAmount stake.cooldownPeriod
  let weights ← okOr (commitment.weights.mutate s.currentCycle.epoch fun w =>
    { w with selfRewardWeight := weight, selfSlashWeight := weight }) .internalErrorReadingOutdated
  let s ← updateTotalStake s (.sub decreaseAmount)
  let commitment := { commitment with
    stake := some { stake with amount, rewardableAmount }
    weights }
  pure { s with commitments := s.commitments.insert c commitment }

def withdrawCommitterAccrued (s : State T) (c : CommitmentId) : Result (State T × ℕ) := do
  let commitment ← okOr (s.commitments.lookup c) .commitmentNotFound
  let stake ← okOr commitment.stake .commitmentNotFound
  let r := stake.accruedReward
  let stake := { stake with accruedReward := 0, paid := saturatingAdd 128 stake.paid r }
  pure ({ s with
    commitments := s.commitments.insert c { commitment with stake := some stake } }, r)

def withdrawCommitterFor (s : State T) (who : A) (c : CommitmentId) : Result (State T × ℕ) := do
  let (s, reward) ← withdrawCommitterAccrued s c
  let s ← transferReward s who reward
  pure (s, reward)

def cooldownCommitmentFor (s : State T) (c : CommitmentId) : Result (State T) := do
  let commitment ← okOr (s.commitments.lookup c) .commitmentNotFound
  let stake ← okOr commitment.stake .commitmentNotFound
  ensure (stake.cooldownStarted = none) .cooldownAlreadyStarted
  let rewardableAmount := T.cooldownRewardRatio.mulFloor stake.amount
  let weight ← weightOf T rewardableAmount stake.cooldownPeriod
  let weights ← okOr (commitment.weights.mutate s.currentCycle.epoch fun w =>
    { w with selfRewardWeight := weight }) .internalErrorReadingOutdated
  let commitment := { commitment with
    stake := some { stake with cooldownStarted := some s.blockNumber, rewardableAmount }
    weights }
  pure { s with commitments := s.commitments.insert c commitment }

def checkCommitmentCooldown (currentBlock : ℕ) (stake : Stake) (checkCooldown : Bool) :
    Result Unit :=
  if checkCooldown then do
    let cooldownStart ← okOr stake.cooldownStarted .cooldownNotStarted
    ensure (saturatingAdd 32 cooldownStart stake.cooldownPeriod ≤ currentBlock) .cooldownNotEnded
  else pure ()

def closeCommitment (s : State T) (who : A) (c : CommitmentId) (checkCooldown : Bool) :
    Result (State T) := do
  let commitment ← okOr (s.commitments.lookup c) .commitmentNotFound
  let stake ← okOr commitment.stake .commitmentNotFound
  checkCommitmentCooldown s.blockNumber stake checkCooldown
  let commitment := { commitment with
    stake := none
    delegationsTotalAmount := 0
    delegationsTotalRewardableAmount := 0
    weights := MemoryBuffer.newWith s.currentCycle.epoch default }
  let s := { s with
    commitments := s.commitments.insert c commitment
    computeCommitments := StorageMap.clearPrefix s.computeCommitments c }
  let s ← updateTotalStake s (.sub stake.amount)
  unlockAndSlash s who stake

def endCommitmentFor (s : State T) (who : A) (c : CommitmentId) (checkCooldown : Bool) :
    Result (State T) := do
  let (s, _) ← withdrawCommitterFor s who c
  closeCommitment s who c checkCooldown

def compoundCommitter (s : State T) (committer : A) (c : CommitmentId) : Result (State T) := do
  let (s, compoundAmount) ← withdrawCommitterFor s committer c
  stakeMoreFor s committer compoundAmount none none none

/-- The number of epochs a pool is charged for. A buffer that was not written since tells that
every epoch after the last write or the last slash was missed. -/
def missedEpochsOf (lastEpoch lastSlashingEpoch : ℕ) (sum : SlidingBuffer (Metric × Metric)) : ℕ :=
  if (sum.get lastEpoch).1 = 0 ∧ sum.epoch < lastEpoch then
    lastEpoch - (if lastSlashingEpoch < sum.epoch then sum.epoch else lastSlashingEpoch)
  else 1

def poolSlashAmount (T : Config A) (totalStake : ℕ) (poolRewardRatio : Perquintill)
    (committedMetric actualMetric : Metric) (missedEpochs : ℕ) : ℕ :=
  match checkedSub committedMetric actualMetric with
  | some unfulfilled =>
    let unfulfilledRatio : Perquintill := PerThing.fromRational unfulfilled committedMetric
    let poolMaxSlash := poolRewardRatio.mulFloor (T.baseSlashRation.mulFloor totalStake)
    saturatingMul 128 (unfulfilledRatio.mulFloor poolMaxSlash) missedEpochs
  | none => 0

def chargeOf (s : State T) (lastEpoch lastSlashingEpoch : ℕ) (managerId : ManagerId)
    (totalStake : ℕ) (pool : MetricPool) (poolId : PoolId) (committedMetric : Metric) : ℕ × ℕ :=
  let sum := StorageMap.getD s.metricsEpochSum (managerId, poolId) default
  let missedEpochs := missedEpochsOf lastEpoch lastSlashingEpoch sum
  (missedEpochs, poolSlashAmount T totalStake (pool.reward.get lastEpoch) committedMetric
    (sum.get lastEpoch).1 missedEpochs)

def addSlashes (s : State T) (lastEpoch lastSlashingEpoch : ℕ) (managerId : ManagerId)
    (totalStake : ℕ) : List (PoolId × Metric) → ℕ × List (PoolId × ℕ) →
      Result (ℕ × List (PoolId × ℕ))
  | [], acc => pure acc
  | (poolId, committedMetric) :: rest, (total, charges) => do
    let pool ← okOr (s.metricPools.lookup poolId) .poolNotFound
    let (missedEpochs, amount) := chargeOf s lastEpoch lastSlashingEpoch managerId totalStake pool
      poolId committedMetric
    let total ← okOr (checkedAdd 128 total amount) .calculationOverflow
    addSlashes s lastEpoch lastSlashingEpoch managerId totalStake rest
      (total, charges ++ [(poolId, missedEpochs)])

structure SlashPlan where
  lastEpoch : ℕ
  totalSlashAmount : ℕ
  weights : CommitmentWeights
  charges : List (PoolId × ℕ)

def planSlash (s : State T) (c : CommitmentId) : Result SlashPlan := do
  let lastEpoch ← okOr (checkedSub s.currentCycle.epoch 1) .calculationOverflow
  let commitment ← okOr (s.commitments.lookup c) .commitmentNotFound
  let committerStake ← okOr commitment.stake .commitmentNotFound
  ensure (commitment.lastSlashingEpoch < lastEpoch) .alreadySlashed
  let managerId ← okOr (s.backings.lookup c) .noManagerBackingCommitment
  let totalStake ← okOr (checkedAdd 128 committerStake.amount commitment.delegationsTotalAmount)
    .calculationOverflow
  let (totalSlashAmount, charges) ← addSlashes s lastEpoch commitment.lastSlashingEpoch managerId
    totalStake (iterPrefix s.computeCommitments c) (0, [])
  ensure (totalSlashAmount ≠ 0) .notSlashable
  pure ⟨lastEpoch, totalSlashAmount, (commitment.weights.getLatest lastEpoch).getD default, charges⟩

structure SlashShares where
  selfSlashAmount : ℕ
  delegationsSlashAmount : ℕ
  slashPerWeightIncrease : Option ℕ

def splitSlash (weights : CommitmentWeights) (totalSlashAmount : ℕ) : Result SlashShares := do
  let product ← okOr (checkedMul 256 weights.selfSlashWeight totalSlashAmount) .calculationOverflow
  let selfShare ← okOr (checkedDiv product weights.totalSlashWeight) .calculationOverflow
  let delegationsShare ← okOr (checkedSub totalSlashAmount selfShare) .calculationOverflow
  let selfSlashAmount := saturatedInto 128 selfShare
  let delegationsSlashAmount := saturatedInto 128 delegationsShare
  if weights.delegationsSlashWeight ≠ 0 ∧ delegationsSlashAmount ≠ 0 then do
    let scaled ← okOr (checkedMul 256 delegationsShare perTokenDecimals) .calculationOverflow
    let increase ← okOr (checkedDiv scaled weights.delegationsSlashWeight) .calculationOverflow
    pure ⟨selfSlashAmount, delegationsSlashAmount, some increase⟩
  else pure ⟨selfSlashAmount, delegationsSlashAmount, none⟩

/-- Credits the slasher out of the slashed funds, as far as that works, and burns the rest. -/
def creditSlasher (s : State T) (slasher : A) (slasherReward credit : ℕ) : State T :=
  if slasherReward = 0 then { s with world := T.burn s.world credit }
  else
    let extracted := min credit slasherReward
    match T.resolve s.world slasher extracted with
    | some w => { s with world := T.burn w (credit - extracted) }
    | none => { s with world := T.burn s.world credit }

def markSlashed (s : State T) (c : CommitmentId) (lastEpoch : ℕ) (increase : Option ℕ) :
    Result (State T) := do
  let commitment ← okOr (s.commitments.lookup c) .commitmentNotFound
  let stake ← okOr commitment.stake .commitmentNotFound
  let poolRewards ← whenSome increase commitment.poolRewards fun increase =>
    okOr (commitment.poolRewards.mutate stake.created fun r =>
      { r with slashPerWeight := saturatingAdd 256 r.slashPerWeight increase }) .internalError
  pure { s with
    commitments := s.commitments.insert c
      { commitment with poolRewards, lastSlashingEpoch := lastEpoch } }

def slashCommitter (s : State T) (committer : A) (c : CommitmentId) (amount : ℕ) :
    Result (State T) :=
  if amount = 0 then pure s else decreaseCommitterStake s committer c amount

def doSlash (s : State T) (c : CommitmentId) (slasher : A) : Result (State T) := do
  let plan ← planSlash s c
  if plan.weights.totalSlashWeight = 0 then pure s
  else do
    let shares ← splitSlash plan.weights plan.totalSlashAmount
    let committer ← okOr (T.ownerFor s.world c) .noOwnerOfCommitmentId
    let s ← slashCommitter s committer c shares.selfSlashAmount
    let ratioReward := T.slashRewardRatio.mulFloor plan.totalSlashAmount
    let slasherReward :=
      if shares.selfSlashAmount < ratioReward then shares.selfSlashAmount else ratioReward
    let (s, credit) ← slashFor s committer shares.selfSlashAmount
    let s := creditSlasher (s.log (.slashed c committer credit)) slasher slasherReward credit
    let s ← markSlashed s c plan.lastEpoch shares.slashPerWeightIncrease
    pure { s with history :=
      plan.charges.map (fun p => .charged c p.1 plan.lastEpoch p.2) ++ s.history }

end Acurast.Compute
