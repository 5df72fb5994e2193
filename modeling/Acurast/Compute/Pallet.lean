import Acurast.Base.Run
import Acurast.Compute.Rewards

/-! The pallet as a state machine: its calls, the heartbeat hook, the start of a block, and
whatever else happens on the chain. A failed call leaves the state as it was. -/

namespace Acurast.Compute

open Base

variable {A : Type} [DecidableEq A] {T : Config A}

def rewardSumAt (epoch : ℕ) : List MetricPool → Perquintill → Option Perquintill
  | [], sum => some sum
  | pool :: rest, sum => (sum.checkedAdd (pool.reward.get epoch)).bind (rewardSumAt epoch rest)

def validateMetricPools (pools : List MetricPool) (currentEpoch : ℕ) : Result Unit :=
  let epochsToTest := currentEpoch :: pools.filterMap (·.reward.nextEpoch currentEpoch)
  ensure (epochsToTest.all fun epoch => (rewardSumAt epoch pools PerThing.zero).isSome)
    .invalidTotalPoolRewards

def State.pools (s : State T) : List MetricPool := s.metricPools.entries.map (·.2)

def doCreatePool (s : State T) (name : MetricPoolName) (rewardRatio : Perquintill)
    (config : List MetricPoolConfigValue) : Result (State T) := do
  ensure (saturatedInto 32 s.pools.length < T.maxPools) .cannotCreatePool
  ensure (s.metricPoolLookup.lookup name = none) .poolNameMustBeUnique
  let poolId ← okOr (checkedAdd 8 s.lastMetricPoolId 1) .calculationOverflow
  let pool : MetricPool :=
    ⟨config, name, ProvisionalBuffer.new rewardRatio, SlidingBuffer.new 0, SlidingBuffer.new 0⟩
  validateMetricPools (s.pools ++ [pool]) s.currentCycle.epoch
  pure { s with
    lastMetricPoolId := poolId
    metricPools := s.metricPools.insert poolId pool
    metricPoolLookup := s.metricPoolLookup.insert name poolId }

def renamePool (s : State T) (poolId : PoolId) (pool : MetricPool) (name : MetricPoolName) :
    Result (State T × MetricPool) := do
  ensure ((s.metricPoolLookup.lookup name).all (· = poolId)) .poolNameMustBeUnique
  pure ({ s with metricPoolLookup := (s.metricPoolLookup.erase pool.name).insert name poolId },
    { pool with name })

def modifyConfig (config : List MetricPoolConfigValue) :
    Option ModifyMetricPoolConfig → List MetricPoolConfigValue
  | some (.replace new) => new
  | some (.update add remove) =>
    ((config.filter fun v => v.1 ∉ add.map (·.1) ∧ v.1 ∉ remove) ++ add).take configValuesMaxLength
  | none => config

def modifyPool (s : State T) (poolId : PoolId) (newName : Option MetricPoolName)
    (newRewardFromEpoch : Option (ℕ × Perquintill)) (newConfig : Option ModifyMetricPoolConfig) :
    Result (State T) := do
  let pool ← okOr (s.metricPools.lookup poolId) .poolNotFound
  let (s, pool) ← whenSome newName (s, pool) (renamePool s poolId pool)
  let previousEpoch := s.currentCycle.epoch - 1
  let reward ← whenSome newRewardFromEpoch pool.reward fun (epoch, reward) =>
    okOr (pool.reward.set previousEpoch epoch reward) .rewardUpdateInvalid
  let pool := { pool with reward, config := modifyConfig pool.config newConfig }
  let s := { s with metricPools := s.metricPools.insert poolId pool }
  validateMetricPools s.pools s.currentCycle.epoch
  pure s

def offerBacking (s : State T) (who manager : A) : Result (State T) := do
  ensure (T.commitmentIdFor s.world who = none) .alreadyBacking
  let managerId ← okOr (T.managerIdFor s.world manager) .outside
  pure { s with backingOffers := s.backingOffers.insert who managerId }

def withdrawBackingOffer (s : State T) (who : A) : Result (State T) := do
  let _ ← okOr (s.backingOffers.lookup who) .noBackingOfferFound
  pure { s with backingOffers := s.backingOffers.erase who }

def doGetOrCreateCommitmentId (s : State T) (committer : A) : Result (State T × CommitmentId) :=
  match T.commitmentIdFor s.world committer with
  | some c => pure (s, c)
  | none => do
    let c := s.nextCommitmentId
    let next ← okOr (checkedAdd 128 c 1) .calculationOverflow
    let w ← okOr (T.createCommitmentId s.world c committer) .outside
    pure ({ s with nextCommitmentId := next, world := w }, c)

def releaseBacking (s : State T) (managerId : ManagerId) : Result (State T) :=
  whenSome (s.backingLookup.lookup managerId) s fun c => do
    ensure (s.commitments.lookup c = none) .alreadyBacking
    pure { s with backings := s.backings.erase c }

def acceptBackingOffer (s : State T) (who committer : A) : Result (State T) := do
  let managerId ← okOr (T.managerIdFor s.world who) .outside
  let s ← releaseBacking s managerId
  let offer ← okOr (s.backingOffers.lookup committer) .noBackingOfferFound
  ensure (managerId = offer) .noBackingOfferFound
  let (s, c) ← doGetOrCreateCommitmentId
    { s with backingOffers := s.backingOffers.erase committer } committer
  pure { s with
    backings := s.backings.insert c managerId
    backingLookup := s.backingLookup.insert managerId c }

def commitCompute (s : State T) (who : A) (amount cooldownPeriod : ℕ)
    (commitment : List ComputeCommitment) (commission : Perbill) (allowAutoCompound : Bool) :
    Result (State T) := do
  let c ← okOr (T.commitmentIdFor s.world who) .outside
  let s ← validateMaxMetricStoreCommitments s c commitment
  let s ← stakeFor s who amount cooldownPeriod commission allowAutoCompound
  validateMaxStakeMetricRatio s c
  pure s

def stakeMore (s : State T) (who : A) (extraAmount : ℕ) (cooldownPeriod : Option ℕ)
    (commitment : Option (List ComputeCommitment)) (commission : Option Perbill)
    (allowAutoCompound : Option Bool) : Result (State T) := do
  let c ← okOr (T.commitmentIdFor s.world who) .outside
  let s ← whenSome commitment s (validateMaxMetricStoreCommitments s c)
  let s ← stakeMoreFor s who extraAmount cooldownPeriod commission allowAutoCompound
  validateMaxStakeMetricRatio s c
  pure s

def delegate (s : State T) (who committer : A) (amount cooldownPeriod : ℕ)
    (allowAutoCompound : Bool) : Result (State T) := do
  let c ← okOr (T.commitmentIdFor s.world committer) .outside
  let s ← delegateFor s who c amount cooldownPeriod allowAutoCompound
  validateMaxStakeMetricRatio s c
  pure s

def delegateMore (s : State T) (who committer : A) (extraAmount : ℕ) (cooldownPeriod : Option ℕ)
    (allowAutoCompound : Option Bool) : Result (State T) := do
  let c ← okOr (T.commitmentIdFor s.world committer) .outside
  let s ← delegateMoreFor s who c extraAmount cooldownPeriod allowAutoCompound
  validateMaxStakeMetricRatio s c
  pure s

def compoundDelegation (s : State T) (who committer : A) (delegator : Option A) :
    Result (State T) := do
  let c ← okOr (T.commitmentIdFor s.world committer) .outside
  let delegator := delegator.getD who
  let d ← okOr (s.delegations.lookup (delegator, c)) .notDelegating
  ensure (who = delegator ∨ d.stake.allowAutoCompound = true) .autoCompoundNotAllowed
  compoundDelegator s delegator c

def compoundStake (s : State T) (who : A) (committer : Option A) : Result (State T) := do
  let committer := committer.getD who
  let c ← okOr (T.commitmentIdFor s.world committer) .noOwnerOfCommitmentId
  let commitment ← okOr (s.commitments.lookup c) .commitmentNotFound
  let stake ← okOr commitment.stake .commitmentNotFound
  ensure (who = committer ∨ stake.allowAutoCompound = true) .autoCompoundNotAllowed
  compoundCommitter s committer c

inductive Call (A : Type) where
  | createPool (name : MetricPoolName) (reward : Perquintill) (config : List MetricPoolConfigValue)
  | modifyPool (poolId : PoolId) (newName : Option MetricPoolName)
      (newRewardFromEpoch : Option (ℕ × Perquintill)) (newConfig : Option ModifyMetricPoolConfig)
  | offerBacking (manager : A)
  | withdrawBackingOffer
  | acceptBackingOffer (committer : A)
  | commitCompute (amount cooldownPeriod : ℕ) (commitment : List ComputeCommitment)
      (commission : Perbill) (allowAutoCompound : Bool)
  | stakeMore (extraAmount : ℕ) (cooldownPeriod : Option ℕ)
      (commitment : Option (List ComputeCommitment)) (commission : Option Perbill)
      (allowAutoCompound : Option Bool)
  | cooldownComputeCommitment
  | endComputeCommitment
  | delegate (committer : A) (amount cooldownPeriod : ℕ) (allowAutoCompound : Bool)
  | cooldownDelegation (committer : A)
  | redelegate (oldCommitter newCommitter : A)
  | endDelegation (committer : A)
  | kickOut (delegator committer : A)
  | slash (committer : A)
  | withdrawDelegation (committer : A)
  | withdrawCommitment
  | delegateMore (committer : A) (extraAmount : ℕ) (cooldownPeriod : Option ℕ)
      (allowAutoCompound : Option Bool)
  | compoundDelegation (committer : A) (delegator : Option A)
  | compoundStake (committer : Option A)
  | enableInflation

def dispatchSigned (s : State T) (who : A) : Call A → Result (State T)
  | .createPool .. | .modifyPool .. | .enableInflation => throw .badOrigin
  | .offerBacking manager => offerBacking s who manager
  | .withdrawBackingOffer => withdrawBackingOffer s who
  | .acceptBackingOffer committer => acceptBackingOffer s who committer
  | .commitCompute amount cooldownPeriod commitment commission allowAutoCompound =>
    commitCompute s who amount cooldownPeriod commitment commission allowAutoCompound
  | .stakeMore extraAmount cooldownPeriod commitment commission allowAutoCompound =>
    stakeMore s who extraAmount cooldownPeriod commitment commission allowAutoCompound
  | .cooldownComputeCommitment => do
    let c ← okOr (T.commitmentIdFor s.world who) .outside
    cooldownCommitmentFor s c
  | .endComputeCommitment => do
    let c ← okOr (T.commitmentIdFor s.world who) .outside
    endCommitmentFor s who c true
  | .delegate committer amount cooldownPeriod allowAutoCompound =>
    delegate s who committer amount cooldownPeriod allowAutoCompound
  | .cooldownDelegation committer => do
    let c ← okOr (T.commitmentIdFor s.world committer) .outside
    cooldownDelegationFor s who c
  | .redelegate oldCommitter newCommitter => do
    let oldCommitmentId ← okOr (T.commitmentIdFor s.world oldCommitter) .outside
    let newCommitmentId ← okOr (T.commitmentIdFor s.world newCommitter) .outside
    redelegateFor s who oldCommitmentId newCommitmentId
  | .endDelegation committer => do
    let c ← okOr (T.commitmentIdFor s.world committer) .outside
    let (s, _) ← endDelegationFor s who c true false
    pure s
  | .kickOut delegator committer => do
    let c ← okOr (T.commitmentIdFor s.world committer) .outside
    let (s, _) ← endDelegationFor s delegator c true true
    pure s
  | .slash committer => do
    let c ← okOr (T.commitmentIdFor s.world committer) .outside
    doSlash s c who
  | .withdrawDelegation committer => do
    let c ← okOr (T.commitmentIdFor s.world committer) .outside
    let (s, _) ← withdrawDelegationFor s who c
    pure s
  | .withdrawCommitment => do
    let c ← okOr (T.commitmentIdFor s.world who) .outside
    let (s, _) ← withdrawCommitterFor s who c
    pure s
  | .delegateMore committer extraAmount cooldownPeriod allowAutoCompound =>
    delegateMore s who committer extraAmount cooldownPeriod allowAutoCompound
  | .compoundDelegation committer delegator => compoundDelegation s who committer delegator
  | .compoundStake committer => compoundStake s who committer

def dispatch (s : State T) (origin : Origin A) (call : Call A) : Result (State T) :=
  match call with
  | .createPool name reward config => do
    ensure (T.createModifyPoolOrigin origin = true) .badOrigin
    doCreatePool s name reward config
  | .modifyPool poolId newName newRewardFromEpoch newConfig => do
    ensure (T.createModifyPoolOrigin origin = true) .badOrigin
    modifyPool s poolId newName newRewardFromEpoch newConfig
  | .enableInflation => do
    ensure (T.operatorOrigin origin = true) .badOrigin
    pure { s with inflationEnabled := true }
  | call =>
    match origin with
    | .root => throw .badOrigin
    | .signed who => dispatchSigned s who call

structure InflationInfo where
  metricsReward : ℕ
  stakedComputeReward : ℕ
  collatorsReward : ℕ
  credit : Option ℕ

def inflate (s : State T) : State T × InflationInfo :=
  if s.inflationEnabled = false ∨ T.inflationPerEpoch = 0 then (s, ⟨0, 0, 0, none⟩)
  else
    let amount := T.inflationPerEpoch
    let w := T.issue s.world amount
    let stakeBacked := T.inflationStakedComputeRatio.mulFloor amount
    let computeBased := T.inflationMetricsRatio.mulFloor amount
    let collators := T.inflationCollatorsRatio.mulFloor amount
    let extracted :=
      min amount (saturatingAdd 128 (saturatingAdd 128 stakeBacked computeBased) collators)
    match T.resolve w T.palletAccount extracted with
    | some w => ({ s with world := w }, ⟨computeBased, stakeBacked, collators,
      some (amount - extracted)⟩)
    | none => ({ s with world := w }, ⟨computeBased, stakeBacked, collators, some amount⟩)

def storeMetricsReward (s : State T) (amount : ℕ) : State T :=
  if amount = 0 then s
  else { s with computeBasedRewards :=
    s.computeBasedRewards.mutate s.currentCycle.epoch (fun _ => amount) false }

def targetWeightPerComputeOf (T : Config A) (targetTokenSupply : ℕ) (poolTotal : FixedU128) : ℕ :=
  saturatingMul 256
    ((checkedDiv (saturatingMul 256 targetTokenSupply perTokenDecimals) poolTotal).getD 0)
    T.targetWeightPerComputeMultiplier

def storePoolBudget (s : State T) (amount lastEpoch targetTokenSupply : ℕ)
    (budgets : StorageMap PoolId (SlidingBuffer RewardBudget)) (poolId : PoolId)
    (pool : MetricPool) : StorageMap PoolId (SlidingBuffer RewardBudget) :=
  let budget := RewardBudget.new ((pool.reward.get lastEpoch).mulFloor amount)
    (targetWeightPerComputeOf T targetTokenSupply (pool.total.get lastEpoch))
  budgets.insert poolId ((StorageMap.getD budgets poolId default).mutate s.currentCycle.epoch
    (fun _ => budget) false)

def storeStakedComputeReward (s : State T) (amount lastEpoch targetTokenSupply : ℕ) : State T :=
  let stakeBasedRewards := s.metricPools.entries.foldl (fun budgets e =>
    storePoolBudget s amount lastEpoch targetTokenSupply budgets e.1 e.2) s.stakeBasedRewards
  { s with stakeBasedRewards }

def rewardCollator (s : State T) : State T :=
  if s.collatorRewards = 0 then s
  else match T.author s.world with
    | none => s
    | some author =>
      match T.transfer s.world T.palletAccount author (s.collatorRewards / T.epoch) with
      | some w => { s with world := w }
      | none => s

def advanceEpoch (s : State T) : State T :=
  { s with currentCycle := ⟨saturatingAdd 32 s.currentCycle.epoch 1, s.blockNumber⟩ }

def startEpoch (s : State T) : State T :=
  let lastEpoch := s.currentCycle.epoch
  let s := advanceEpoch s
  let targetTokenSupply := T.targetStakedTokenSupply.mulFloor (T.totalIssuance s.world)
  let (s, info) := inflate s
  let s := storeMetricsReward s info.metricsReward
  let s := storeStakedComputeReward s info.stakedComputeReward lastEpoch targetTokenSupply
  let s := { s with collatorRewards := info.collatorsReward }
  match info.credit with
  | some credit => { s with world := T.onUnbalanced s.world credit }
  | none => s

def onInitialize (s : State T) : State T :=
  let s := { s with blockNumber := s.blockNumber + 1 }
  let diff := s.blockNumber - s.currentCycle.epochStart
  rewardCollator <| if s.currentCycle.epochStart = 0 then
      { s with currentCycle := ⟨diff / T.epoch, s.blockNumber⟩ }
    else if diff % T.epoch = 0 then startEpoch s
    else s

inductive Op (T : Config A) where
  | dispatch (origin : Origin A) (call : Call A)
  | heartbeat (processor manager : A) (managerId : ManagerId) (metrics : List MetricInput)
  | block
  /-- Anything outside the pallet, which it does not see. -/
  | outside (world : T.World)

def step (s : State T) : Op T → State T
  | .dispatch origin call =>
    match dispatch s origin call with
    | .ok s' => s'
    | .error _ => s
  | .heartbeat processor manager managerId metrics =>
    (commit s processor manager managerId metrics).1
  | .block => onInitialize s
  | .outside w => { s with world := w }

abbrev reached (w : T.World) (ops : List (Op T)) : State T := run step (State.genesis T w) ops

theorem reached_append (w : T.World) (before after : List (Op T)) :
    reached w (before ++ after) = run step (reached w before) after :=
  run_append before after

theorem dispatch_eq_step {s : State T} {o : Origin A} {call : Call A}
    (h : (dispatch s o call).isOk = true) :
    dispatch s o call = .ok (step s (.dispatch o call)) := by
  simp only [step]
  split
  · next s' hs => exact hs
  · next e he =>
    rw [he] at h
    cases h

end Acurast.Compute
