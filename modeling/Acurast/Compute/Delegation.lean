import Acurast.Compute.Limits

/-! The life of a delegation: opening, accruing, slashing, cooling down, paying out and ending. -/

namespace Acurast.Compute

open Base

variable {A : Type} [DecidableEq A] {T : Config A}

def rewardableOf (T : Config A) (stake : Stake) (amount : ℕ) : ℕ :=
  if stake.cooldownStarted.isSome then T.cooldownRewardRatio.mulFloor amount else amount

def sanitizeDelegation (s : State T) (c : CommitmentId) (d : Delegation) :
    Result (State T × Delegation) :=
  if d.stake.rewardableAmount ≤ d.stake.amount then pure (s, d)
  else do
    let corrected := rewardableOf T d.stake d.stake.amount
    let rewardableAmountDiff := d.stake.rewardableAmount - corrected
    let newRewardWeight ← weightOf T corrected d.stake.cooldownPeriod
    let rewardWeightDiff := d.rewardWeight - newRewardWeight
    let commitment ← okOr (s.commitments.lookup c) .commitmentNotFound
    let weights ← okOr (commitment.weights.mutate s.currentCycle.epoch fun w =>
      { w with delegationsRewardWeight := w.delegationsRewardWeight - rewardWeightDiff })
      .internalErrorReadingOutdated
    let commitment := { commitment with
      delegationsTotalRewardableAmount :=
        commitment.delegationsTotalRewardableAmount - rewardableAmountDiff
      weights }
    let d := { d with
      stake := { d.stake with rewardableAmount := corrected }
      rewardWeight := newRewardWeight }
    pure ({ s with commitments := s.commitments.insert c commitment }, d)

/-- Adds what the delegation has earned and is to be slashed since its debts were recorded, and
records them anew. A delegation whose pool is no longer remembered is left alone. -/
def accrueDelegator (s : State T) (who : A) (c : CommitmentId) : Result (State T) := do
  let commitment ← okOr (s.commitments.lookup c) .commitmentNotFound
  let d ← okOr (s.delegations.lookup (who, c)) .notDelegating
  -- `getLatest`, with the time of the entry for the trace
  match commitment.poolRewards.latestEntry d.stake.created with
  | none => pure s
  | some (generation, poolRewards) => do
    let earned ← slashDebtOf d.rewardWeight poolRewards.rewardPerWeight
    let reward := earned - d.rewardDebt
    let charged ← slashDebtOf d.slashWeight poolRewards.slashPerWeight
    let slash ← okOr (checkedSub charged d.slashDebt) .calculationOverflow
    let accruedReward ← okOr (checkedAdd 128 d.stake.accruedReward reward) .calculationOverflow
    let accruedSlash ← okOr (checkedAdd 128 d.stake.accruedSlash slash) .calculationOverflow
    let (s, d) ← sanitizeDelegation s c
      { d with stake := { d.stake with accruedReward, accruedSlash } }
    let rewardDebt ← rewardDebtOf d.rewardWeight poolRewards.rewardPerWeight
    let slashDebt ← slashDebtOf d.slashWeight poolRewards.slashPerWeight
    let s := { s with delegations := s.delegations.insert (who, c) { d with rewardDebt, slashDebt } }
    pure (s.log (.accrued who c generation reward slash))

def reweigh (T : Config A) (d : Delegation) (poolRewards : PoolReward) :
    Result (Delegation × ℕ × ℕ) := do
  let rewardWeight ← weightOf T d.stake.rewardableAmount d.stake.cooldownPeriod
  let slashWeight ← weightOf T d.stake.amount d.stake.cooldownPeriod
  let rewardWeightDiff ← okOr (checkedSub d.rewardWeight rewardWeight) .calculationOverflow
  let slashWeightDiff ← okOr (checkedSub d.slashWeight slashWeight) .calculationOverflow
  let rewardDebt ← rewardDebtOf rewardWeight poolRewards.rewardPerWeight
  let slashDebt ← slashDebtOf slashWeight poolRewards.slashPerWeight
  pure ({ d with rewardWeight, slashWeight, rewardDebt, slashDebt }, rewardWeightDiff,
    slashWeightDiff)

def reweighLive (T : Config A) (commitment : Commitment) (committerStake : Stake)
    (d : Delegation) : Result (Delegation × ℕ × ℕ) :=
  if committerStake.created ≤ d.stake.created then
    match commitment.poolRewards.getLatest d.stake.created with
    | some poolRewards => reweigh T d poolRewards
    | none => pure (d, 0, 0)
  else pure (d, 0, 0)

/-- The commitment and the delegation after the delegation's amounts were lowered. While the
committer has a stake the totals fall in any case, the weights only for a live delegation. -/
def decreaseCommitment (T : Config A) (epoch : ℕ) (commitment : Commitment) (d : Delegation)
    (amountDiff rewardableAmountDiff : ℕ) : Result (Commitment × Delegation) :=
  match commitment.stake with
  | none => pure (commitment, d)
  | some committerStake => do
    let (d, rewardWeightDiff, slashWeightDiff) ← reweighLive T commitment committerStake d
    let weights ← okOr (commitment.weights.mutate epoch fun w =>
      { w with
        delegationsRewardWeight := w.delegationsRewardWeight - rewardWeightDiff
        delegationsSlashWeight := w.delegationsSlashWeight - slashWeightDiff })
      .internalErrorReadingOutdated
    pure ({ commitment with
      delegationsTotalAmount := commitment.delegationsTotalAmount - amountDiff
      delegationsTotalRewardableAmount :=
        commitment.delegationsTotalRewardableAmount - rewardableAmountDiff
      weights }, d)

def decreaseDelegatorStake (s : State T) (who : A) (c : CommitmentId) (target : ℕ) :
    Result (State T × ℕ × ℕ) := do
  let commitment ← okOr (s.commitments.lookup c) .commitmentNotFound
  let d ← okOr (s.delegations.lookup (who, c)) .notDelegating
  let decreaseAmount := if d.stake.amount < target then d.stake.amount else target
  let decreasedAmount := d.stake.amount - decreaseAmount
  let decreasedRewardableAmount := rewardableOf T d.stake decreasedAmount
  let amountDiff := d.stake.amount - decreasedAmount
  let rewardableAmountDiff := d.stake.rewardableAmount - decreasedRewardableAmount
  let lowered := { d with
    stake := { d.stake with
      amount := decreasedAmount
      rewardableAmount := decreasedRewardableAmount } }
  let s ← lockFunds s who decreasedAmount (.delegation c)
  let (commitment, d) ← decreaseCommitment T s.currentCycle.epoch commitment lowered amountDiff
    rewardableAmountDiff
  let s ← updateTotalStake s (.sub decreaseAmount)
  let delegatorTotal ← okOr (checkedSub (StorageMap.getD s.delegatorTotal who 0) decreaseAmount)
    .calculationOverflow
  pure ({ s with
    commitments := s.commitments.insert c commitment
    delegations := s.delegations.insert (who, c) d
    delegatorTotal := s.delegatorTotal.insert who delegatorTotal }, decreaseAmount,
    target - decreaseAmount)

def keepUnslashed (s : State T) (who : A) (c : CommitmentId) (remainingUnslashed : ℕ) :
    Result (State T) := do
  let d ← okOr (s.delegations.lookup (who, c)) .notDelegating
  let d := { d with stake := { d.stake with accruedSlash := remainingUnslashed } }
  pure { s with delegations := s.delegations.insert (who, c) d }

def applyDelegatorSlash (s : State T) (who : A) (c : CommitmentId) : Result (State T) := do
  let s ← accrueDelegator s who c
  let d ← okOr (s.delegations.lookup (who, c)) .notDelegating
  if d.stake.accruedSlash = 0 then pure s
  else do
    let (s, slashed, remainingUnslashed) ← decreaseDelegatorStake s who c d.stake.accruedSlash
    let s ← burnFrom s who slashed
    keepUnslashed s who c remainingUnslashed

def takeAccruedReward (s : State T) (who : A) (c : CommitmentId) : Result (State T × ℕ) := do
  let d ← okOr (s.delegations.lookup (who, c)) .commitmentNotFound
  let r := d.stake.accruedReward
  let d := { d with
    stake := { d.stake with accruedReward := 0, paid := saturatingAdd 128 d.stake.paid r } }
  let s := { s with delegations := s.delegations.insert (who, c) d }
  pure (s.log (.withdrew who c r), r)

def withdrawDelegatorAccrued (s : State T) (who : A) (c : CommitmentId) : Result (State T × ℕ) := do
  let s ← applyDelegatorSlash s who c
  takeAccruedReward s who c

def withdrawDelegationFor (s : State T) (who : A) (c : CommitmentId) : Result (State T × ℕ) := do
  let (s, reward) ← withdrawDelegatorAccrued s who c
  let s ← payDelegator s who c reward
  pure (s, reward)

def startDelegationCooldown (s : State T) (who : A) (c : CommitmentId) : Result (State T) := do
  let commitment ← okOr (s.commitments.lookup c) .commitmentNotFound
  let committerStake ← okOr commitment.stake .staleDelegationMustBeEnded
  let cooldownStart := committerStake.cooldownStarted.getD s.blockNumber
  let d ← okOr (s.delegations.lookup (who, c)) .notDelegating
  ensure (d.stake.cooldownStarted = none) .cooldownAlreadyStarted
  ensure (committerStake.created ≤ d.stake.created) .staleDelegationMustBeEnded
  let poolRewards ← okOr (commitment.poolRewards.getLatest d.stake.created)
    .staleDelegationMustBeEnded
  let rewardableAmount := T.cooldownRewardRatio.mulFloor d.stake.amount
  let rewardWeight ← weightOf T rewardableAmount d.stake.cooldownPeriod
  let rewardWeightDiff ← okOr (checkedSub d.rewardWeight rewardWeight) .calculationOverflow
  let weights ← okOr (commitment.weights.mutate s.currentCycle.epoch fun w =>
    { w with delegationsRewardWeight := w.delegationsRewardWeight - rewardWeightDiff })
    .internalErrorReadingOutdated
  let rewardDebt ← rewardDebtOf rewardWeight poolRewards.rewardPerWeight
  let commitment := { commitment with
    delegationsTotalRewardableAmount :=
      commitment.delegationsTotalRewardableAmount - (d.stake.amount - rewardableAmount)
    weights }
  let d := { d with
    stake := { d.stake with cooldownStarted := some cooldownStart, rewardableAmount }
    rewardWeight
    rewardDebt }
  pure { s with
    commitments := s.commitments.insert c commitment
    delegations := s.delegations.insert (who, c) d }

def cooldownDelegationFor (s : State T) (who : A) (c : CommitmentId) : Result (State T) := do
  let s ← applyDelegatorSlash s who c
  startDelegationCooldown s who c

def checkDelegation (s : State T) (c : CommitmentId) (amount cooldownPeriod : ℕ) :
    Result Commitment := do
  ensure (amount ≠ 0 ∧ T.minDelegation ≤ amount) .belowMinDelegation
  ensure (T.minCooldownPeriod ≤ cooldownPeriod) .belowMinCooldownPeriod
  ensure (cooldownPeriod ≤ T.maxCooldownPeriod) .aboveMaxCooldownPeriod
  let commitment ← okOr (s.commitments.lookup c) .commitmentNotFound
  let committerStake ← okOr commitment.stake .commitmentNotFound
  ensure (cooldownPeriod ≤ committerStake.cooldownPeriod)
    .delegationCooldownMustBeShorterThanCommitment
  ensure (committerStake.cooldownStarted = none) .commitmentInCooldown
  pure commitment

def joinCommitment (epoch : ℕ) (commitment : Commitment) (amount weight : ℕ) :
    Result Commitment := do
  let weights ← okOr (commitment.weights.mutate epoch fun w =>
    { w with
      delegationsRewardWeight := saturatingAdd 256 w.delegationsRewardWeight weight
      delegationsSlashWeight := saturatingAdd 256 w.delegationsSlashWeight weight })
    .internalErrorReadingOutdated
  pure { commitment with
    delegationsTotalAmount := saturatingAdd 128 commitment.delegationsTotalAmount amount
    delegationsTotalRewardableAmount :=
      saturatingAdd 128 commitment.delegationsTotalRewardableAmount amount
    weights }

def checkJoined (s : State T) (c : CommitmentId) (commitment : Commitment) : Result Unit := do
  let ratio ← delegationWeightRatio s.currentCycle.epoch commitment
  ensure (ratio ≤ T.maxDelegationRatio) .maxDelegationRatioExceeded
  let overstaked ← isCommitmentOverstaked s c commitment
  ensure (overstaked = false) .maxStakeMetricRatioExceeded

def delegateFor (s : State T) (who : A) (c : CommitmentId) (amount cooldownPeriod : ℕ)
    (allowAutoCompound : Bool) : Result (State T) := do
  let commitment ← checkDelegation s c amount cooldownPeriod
  let created := s.blockNumber
  let s ← lockFunds s who amount (.delegation c)
  let weight ← weightOf T amount cooldownPeriod
  let poolRewards := (commitment.poolRewards.getLatest created).getD default
  let rewardDebt ← ceilOf weight poolRewards.rewardPerWeight
  let slashDebt ← floorOf weight poolRewards.slashPerWeight
  ensure (s.delegations.lookup (who, c) = none) .alreadyDelegating
  let rewardDebt ← asU128 rewardDebt
  let slashDebt ← asU128 slashDebt
  let commitment ← joinCommitment s.currentCycle.epoch commitment amount weight
  let s ← updateTotalStake s (.add amount)
  let delegatorTotal ← okOr (checkedAdd 128 (StorageMap.getD s.delegatorTotal who 0) amount)
    .calculationOverflow
  checkJoined s c commitment
  let d : Delegation := ⟨Stake.new amount created cooldownPeriod allowAutoCompound, weight, weight,
    rewardDebt, slashDebt⟩
  pure { s with
    commitments := s.commitments.insert c commitment
    delegations := s.delegations.insert (who, c) d
    delegatorTotal := s.delegatorTotal.insert who delegatorTotal }

def checkDelegationCooldown (currentBlock : ℕ) (committerStake stake : Stake) : Result Unit :=
  match committerStake.cooldownStarted, stake.cooldownStarted with
  | some committerStart, some delegatorStart =>
    let first := if committerStart < delegatorStart then committerStart else delegatorStart
    ensure (saturatingAdd 32 first stake.cooldownPeriod ≤ currentBlock) .cooldownNotEnded
  | some committerStart, none =>
    ensure (saturatingAdd 32 committerStart stake.cooldownPeriod ≤ currentBlock) .cooldownNotEnded
  | none, some delegatorStart =>
    ensure (saturatingAdd 32 delegatorStart stake.cooldownPeriod ≤ currentBlock) .cooldownNotEnded
  | none, none => throw .cooldownNotStarted

def leaveCommitment (epoch : ℕ) (commitment : Commitment) (d : Delegation) (attemptKickout : Bool) :
    Result Commitment :=
  match commitment.stake with
  | none => pure commitment
  | some committerStake =>
    if committerStake.created ≤ d.stake.created then do
      ensure (attemptKickout = false) .cannotKickout
      let weights ← okOr (commitment.weights.mutate epoch fun w =>
        { w with
          delegationsRewardWeight := w.delegationsRewardWeight - d.rewardWeight
          delegationsSlashWeight := w.delegationsSlashWeight - d.slashWeight })
        .internalErrorReadingOutdated
      pure { commitment with
        delegationsTotalAmount := commitment.delegationsTotalAmount - d.stake.amount
        delegationsTotalRewardableAmount :=
          commitment.delegationsTotalRewardableAmount - d.stake.rewardableAmount
        weights }
    else pure commitment

def closeDelegation (s : State T) (who : A) (c : CommitmentId)
    (checkCooldown attemptKickout : Bool) : Result (State T) := do
  let commitment ← okOr (s.commitments.lookup c) .commitmentNotFound
  let d ← okOr (s.delegations.lookup (who, c)) .notDelegating
  whenSome commitment.stake () fun committerStake =>
    if checkCooldown ∧ committerStake.created ≤ d.stake.created then
      checkDelegationCooldown s.blockNumber committerStake d.stake
    else pure ()
  let commitment ← leaveCommitment s.currentCycle.epoch commitment d attemptKickout
  let s := { s with delegations := s.delegations.erase (who, c) }
  let s ← updateTotalStake s (.sub d.stake.amount)
  let delegatorTotal ← okOr (checkedSub (StorageMap.getD s.delegatorTotal who 0) d.stake.amount)
    .calculationOverflow
  let s := { s with delegatorTotal := s.delegatorTotal.insert who delegatorTotal }
  let s ← unlockAndSlash s who d.stake
  pure { s with commitments := s.commitments.insert c commitment }

def endDelegationFor (s : State T) (who : A) (c : CommitmentId)
    (checkCooldown attemptKickout : Bool) : Result (State T × ℕ) := do
  let (s, reward) ← withdrawDelegationFor s who c
  let s ← closeDelegation s who c checkCooldown attemptKickout
  pure (s, reward)

def delegateMoreFor (s : State T) (who : A) (c : CommitmentId) (extraAmount : ℕ)
    (cooldownPeriod : Option ℕ) (allowAutoCompound : Option Bool) : Result (State T) := do
  let oldDelegation ← okOr (s.delegations.lookup (who, c)) .notDelegating
  ensure (oldDelegation.stake.cooldownStarted = none) .delegationInCooldown
  let commitment ← okOr (s.commitments.lookup c) .commitmentNotFound
  let committerStake ← okOr commitment.stake .commitmentNotFound
  ensure (committerStake.created ≤ oldDelegation.stake.created) .staleDelegationMustBeEnded
  let amount ← okOr (checkedAdd 128 oldDelegation.stake.amount extraAmount) .calculationOverflow
  ensure (oldDelegation.stake.cooldownPeriod ≤
    cooldownPeriod.getD oldDelegation.stake.cooldownPeriod) .cooldownPeriodCannotDecrease
  let (s, reward) ← endDelegationFor s who c false false
  -- the reward was already transferred by `withdrawDelegationFor`
  let s ← payDelegator s who c reward
  delegateFor s who c amount (cooldownPeriod.getD oldDelegation.stake.cooldownPeriod)
    (allowAutoCompound.getD oldDelegation.stake.allowAutoCompound)

def redelegateFor (s : State T) (who : A) (oldCommitmentId newCommitmentId : CommitmentId) :
    Result (State T) := do
  let oldDelegation ← okOr (s.delegations.lookup (who, oldCommitmentId)) .notDelegating
  ensure (s.delegations.lookup (who, newCommitmentId) = none)
    .alreadyDelegatingToRedelegationCommitter
  let oldCommitment ← okOr (s.commitments.lookup oldCommitmentId) .commitmentNotFound
  let oldCommitmentStake ← okOr oldCommitment.stake .staleDelegationMustBeEnded
  ensure (oldCommitmentStake.created ≤ oldDelegation.stake.created) .staleDelegationMustBeEnded
  ensure (oldCommitmentStake.cooldownStarted = none →
    saturatingMul 32 T.redelegationBlockingPeriod T.epoch ≤
      s.blockNumber - oldDelegation.stake.created) .redelegateBlocked
  let (s, reward) ← endDelegationFor s who oldCommitmentId false false
  -- here too the reward was already transferred
  let s ← payDelegator s who oldCommitmentId reward
  delegateFor s who newCommitmentId oldDelegation.stake.amount oldDelegation.stake.cooldownPeriod
    oldDelegation.stake.allowAutoCompound

def compoundDelegator (s : State T) (who : A) (c : CommitmentId) : Result (State T) := do
  let (s, compoundAmount) ← withdrawDelegationFor s who c
  delegateMoreFor s who c compoundAmount none none

end Acurast.Compute
