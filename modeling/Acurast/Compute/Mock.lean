import Acurast.Compute.Step

/-! A runtime with the constants of the pallet's test runtime, but epochs of one block. Accounts
never run dry, and the outside world is the list of the commitments' owners. -/

namespace Acurast.Compute

open Base

def unit : ℕ := 10 ^ 12

def percent (n : ℕ) : Perquintill := PerThing.fromRational n 100

/-- Account `0` is the distribution account, `1` the manager, and any other one a committer or a
delegator. -/
def mock : Config ℕ where
  palletAccount := 0
  epoch := 1
  epoch_pos := Nat.one_pos
  busyWeightBonus := percent 20
  metricValidity := 100
  maxPools := 30
  maxMetricCommitmentRatio := percent 80
  minCooldownPeriod := 36
  maxCooldownPeriod := 108
  targetWeightPerComputeMultiplier := 10 ^ 18
  targetStakedTokenSupply := percent 50
  minDelegation := 1
  maxDelegationRatio := percent 90
  cooldownRewardRatio := percent 50
  redelegationBlockingPeriod := 3
  minStake := unit
  baseSlashRation := percent 1
  slashRewardRatio := percent 10
  maxCommissionIncreasePerDay := PerThing.fromParts 2500000
  blocksPerDay := 14400
  warmupPeriod := 0
  inflationPerEpoch := 8561643835616438
  inflationStakedComputeRatio := percent 70
  inflationMetricsRatio := percent 30
  inflationCollatorsRatio := percent 0
  createModifyPoolOrigin := fun origin => match origin with | .root => true | .signed _ => false
  operatorOrigin := fun origin => match origin with | .root => true | .signed _ => false
  World := List (ℕ × CommitmentId)
  managerIdFor := fun _ who => if who = 1 then some 1 else none
  commitmentIdFor := fun owners who => (owners.find? (·.1 = who)).map (·.2)
  ownerFor := fun owners c => (owners.find? (·.2 = c)).map (·.1)
  createCommitmentId := fun owners c who => some ((who, c) :: owners)
  totalIssuance := fun _ => 10 ^ 21
  totalBalance := fun _ _ => 10 ^ 18
  freeBalance := fun _ _ => 10 ^ 18
  balanceLocked := fun _ _ => 0
  setLock := fun owners _ _ => owners
  removeLock := fun owners _ => owners
  transfer := fun owners _ _ _ => some owners
  withdraw := fun owners _ amount => some (owners, amount)
  slash := fun _ _ _ => none
  issue := fun owners _ => owners
  resolve := fun owners _ _ => some owners
  burn := fun owners _ => owners
  onUnbalanced := fun owners _ => owners
  author := fun _ => none

abbrev after (ops : List (Op mock)) : State mock := reached (T := mock) [] ops

section Runs

variable {T : Config ℕ}

def signed (who : ℕ) (call : Call ℕ) : Op T := .dispatch (.signed who) call

def newPool (name : UInt8) (share : ℕ) : Op T :=
  .dispatch .root (.createPool (Vector.replicate 24 name) (percent share) [])

def beat : Op T := .heartbeat 3 1 1 [(1, 10, 1)]

def prepared : List (Op T) :=
  [newPool 0 100, .dispatch .root .enableInflation, signed 2 (.offerBacking 1),
    signed 1 (.acceptBackingOffer 2), .block, beat, .block]

end Runs

def stakeCallFor (period : ℕ) : Call ℕ :=
  .commitCompute (10 * unit) period [⟨1, 8 * 10 ^ 18⟩] PerThing.zero false

def stakeCall : Call ℕ := stakeCallFor 36

def opening : List (Op mock) :=
  prepared ++ [signed 2 stakeCall, signed 4 (.delegate 2 (50 * unit) 36 false)]

def rewarded : List (Op mock) := opening ++ [beat, .block, beat, .block, beat, .block, beat]

def missed (n : ℕ) : State mock :=
  after (opening ++ List.replicate n .block)

end Acurast.Compute
