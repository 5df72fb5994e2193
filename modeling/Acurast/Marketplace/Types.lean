import Acurast.Base.Outcome
import Acurast.Base.Storage
import Acurast.Common.Message
import Acurast.Common.Schedule
import Acurast.Marketplace.Reputation

/-! Data, configuration and storage of the marketplace, with what it uses of the pallet that keeps the
job registrations. What both call in other pallets is a parameter over an opaque outside world. -/

namespace Acurast.Marketplace

open Base

abbrev PoolId := ℕ

abbrev Script := Bytes

abbrev KeyId := H256

abbrev DeploymentHash := H256

abbrev JobId (A : Type) := MultiOrigin A × ℕ

structure Version where
  platform : ℕ
  buildNumber : ℕ
  deriving DecidableEq

def Version.ge (version required : Version) : Bool :=
  version.platform = required.platform ∧ required.buildNumber ≤ version.buildNumber

inductive JobModule where
  | dataEncryption | llm | shell
  deriving DecidableEq

structure MinMetric where
  poolId : PoolId
  value : FixedU128
  deriving DecidableEq

def MinMetric.checkedFrom (input : PoolId × ℕ × ℕ) : Option MinMetric :=
  (FixedU128.checkedFromRational input.2.1 (if input.2.2 = 0 then 1 else input.2.2)).map
    (⟨input.1, ·⟩)

structure Environment where
  publicKey : Bytes
  envVars : List (Bytes × Bytes)
  deriving DecidableEq

structure PlannedExecution (A : Type) where
  source : A
  startDelay : ℕ
  deriving DecidableEq

inductive AssignmentStrategy (A : Type) where
  | single (instantMatch : Option (List (PlannedExecution A)))
  | competing
  deriving DecidableEq

structure JobRequirements (A : Type) where
  assignmentStrategy : AssignmentStrategy A
  slots : ℕ
  reward : ℕ
  minReputation : Option ℕ
  processorVersion : Option (List Version)
  deriving DecidableEq

structure JobRegistration (A : Type) where
  script : Script
  allowedSources : Option (List A)
  allowOnlyVerifiedSources : Bool
  schedule : Schedule
  networkRequests : ℕ
  requiredModules : List JobModule
  extra : JobRequirements A
  deriving DecidableEq

inductive ScriptMutability (A : Type) where
  | immutable
  | mutable (editor : Option A)

inductive ListUpdateOperation where
  | add | remove
  deriving DecidableEq

structure AdvertisementRestriction (A : Type) where
  networkRequestQuota : ℕ
  allowedConsumers : Option (List (MultiOrigin A))
  availableModules : List JobModule
  deriving DecidableEq

inductive ExecutionSpecifier where
  | all
  | index (i : ℕ)
  deriving DecidableEq

inductive PubKey where
  | secp256r1 (bytes : Bytes)
  | secp256k1 (bytes : Bytes)
  | ed25519 (bytes : Bytes)
  | secp256r1Encryption (bytes : Bytes)
  | secp256k1Encryption (bytes : Bytes)
  deriving DecidableEq

structure Sla where
  total : ℕ
  met : ℕ
  deriving DecidableEq

structure Assignment where
  slot : ℕ
  startDelay : ℕ
  feePerExecution : ℕ
  acknowledged : Bool
  sla : Sla
  pubKeys : List PubKey
  execution : ExecutionSpecifier
  deriving DecidableEq

def Assignment.period (a : Assignment) (schedule : Schedule) (reportTolerance : ℕ) : ℕ × ℕ :=
  match a.execution with
  | .all =>
    (saturatingAdd 64 schedule.startTime a.startDelay,
      saturatingAdd 64 (saturatingAdd 64 schedule.endTime a.startDelay) reportTolerance)
  | .index i =>
    let executionStart := (schedule.nthStartTime a.startDelay i).getD 0
    (executionStart, saturatingAdd 64 (saturatingAdd 64 executionStart schedule.duration) reportTolerance)

def Assignment.isInvalid (a : Assignment) (schedule : Schedule) (now reportTolerance : ℕ) : Bool :=
  let (actualStartTime, actualEndTime) := a.period schedule reportTolerance
  if a.acknowledged = false then actualStartTime < now else actualEndTime < now

inductive JobStatus where
  | opened
  | matched
  | assigned (count : ℕ)
  deriving DecidableEq

structure Match (A : Type) where
  jobId : JobId A
  sources : List (PlannedExecution A)

structure ExecutionMatch (A : Type) where
  jobId : JobId A
  executionIndex : ℕ
  sources : List (PlannedExecution A)

structure PriceSettings where
  minPrice : ℕ
  multiplier : FixedU128

def maxExecutionsPerJob : ℕ := 6308000

def metricsMaxLength : ℕ := 20

structure Config (A : Type) where
  World : Type
  maxAllowedSources : ℕ
  maxSlots : ℕ
  maxAllowedConsumers : ℕ
  matchingCompetingMinInterval : ℕ
  matchingCompetingDueDelta : ℕ
  reportTolerance : ℕ
  palletAccount : A
  hyperdrivePalletAccount : A
  feePalletAccount : A
  feePercentage : Percent
  matcherPercentage : Percent
  defaultMinPrice : ℕ
  defaultPriceMultiplier : FixedU128
  updateOrigin : Origin A → Bool
  operatorOrigin : Origin A → Bool
  fromBase58 : Bytes → Option Bytes
  deploymentHash : MultiOrigin A → Script → DeploymentHash
  keyIdHash : JobId A → KeyId
  sourceVerified : World → A → Bool
  sourceVerifiedCore : World → A → Bool
  processorVersion : World → A → Option Version
  lastProcessorMetric : World → A → PoolId → Option FixedU128
  pricePerMillisecondFor : World → A → Option ℕ
  transfer : World → A → A → ℕ → Option World
  withdraw : World → A → ℕ → Option (World × ℕ)
  onUnbalanced : World → ℕ → World
  assignJob : World → JobId A → List PubKey → Option World
  finalizeJob : World → JobId A → ℕ → Option World

def scriptLength : ℕ := 53

def scriptPrefix : Bytes := [0x69, 0x70, 0x66, 0x73, 0x3a, 0x2f, 0x2f]

def cidv0Length : ℕ := 34

def cidv0Prefix : Bytes := [0x12, 0x20]

def cidv0StrPrefix : Bytes := [0x51, 0x6d]

/-- The lossy conversion of the CID to text replaces only bytes that are no base58 digit, by characters that
are none either. -/
def Config.isValidScript {A : Type} (T : Config A) (script : Script) : Bool :=
  if script.length ≠ scriptLength ∨ ¬ scriptPrefix <+: script then false
  else
    let cid := script.drop scriptPrefix.length
    if ¬ cidv0StrPrefix <+: cid then false
    else match T.fromBase58 cid with
      | none => false
      | some decoded => decide (decoded.length = cidv0Length ∧ cidv0Prefix <+: decoded)

inductive Entry (A : Type) where
  | registered (jobId : JobId A) (registration : JobRegistration A)
  | paid (jobId : JobId A) (amount : ℕ)

variable {A : Type}

structure State (T : Config A) where
  time : ℕ
  world : T.World
  localJobIdSequence : ℕ
  storedJobRegistration : StorageMap (JobId A) (JobRegistration A)
  requiredMinMetrics : StorageMap (JobId A) (List MinMetric)
  executionEnvironment : StorageMap (JobId A × A) Environment
  storedJobStatus : StorageMap (JobId A) JobStatus
  storedJobExecutionStatus : StorageMap (JobId A × ℕ) JobStatus
  storedAdvertisementRestriction : StorageMap A (AdvertisementRestriction A)
  storedReputation : StorageMap A BetaParameters
  storedTotalAssigned : Option ℕ
  storedAverageReward : Option ℕ
  storedMatches : StorageMap (A × JobId A) Assignment
  assignedProcessors : StorageMap (JobId A × A) Unit
  jobBudgets : StorageMap (JobId A) ℕ
  nextReportIndex : StorageMap (JobId A × A) ℕ
  editors : StorageMap (JobId A) A
  jobKeyIds : StorageMap (JobId A) KeyId
  deploymentHashes : StorageMap (JobId A) DeploymentHash
  deploymentKeyIds : StorageMap DeploymentHash KeyId
  jobPriceSettings : Option PriceSettings
  jobMatcher : StorageMap (JobId A) A
  /-- No function of the pallet reads it. -/
  history : List (Entry A)

def State.genesis (T : Config A) (world : T.World) : State T where
  time := 0
  world := world
  localJobIdSequence := 0
  storedJobRegistration := ∅
  requiredMinMetrics := ∅
  executionEnvironment := ∅
  storedJobStatus := ∅
  storedJobExecutionStatus := ∅
  storedAdvertisementRestriction := ∅
  storedReputation := ∅
  storedTotalAssigned := none
  storedAverageReward := none
  storedMatches := ∅
  assignedProcessors := ∅
  jobBudgets := ∅
  nextReportIndex := ∅
  editors := ∅
  jobKeyIds := ∅
  deploymentHashes := ∅
  deploymentKeyIds := ∅
  jobPriceSettings := none
  jobMatcher := ∅
  history := []

inductive Error where
  | badOrigin
  | outside
  | failedTimestampConversion
  | invalidScriptValue
  | tooFewAllowedSources
  | tooManyAllowedSources
  | tooManyMinMetrics
  | jobRegistrationNotFound
  | calculationOverflow
  | unexpectedCheckedCalculation
  | jobRegistrationZeroDuration
  | jobRegistrationScheduleExceedsMaximumExecutions
  | jobRegistrationScheduleContainsZeroExecutions
  | jobRegistrationDurationExceedsInterval
  | jobRegistrationStartInPast
  | jobRegistrationEndBeforeStart
  | jobRegistrationZeroSlots
  | jobRegistrationIntervalBelowMinimum
  | tooManySlots
  | jobStatusNotFound
  | jobRegistrationUnmodifiable
  | cannotAcknowledgeWhenNotMatched
  | cannotAcknowledgeForOtherThanCurrentExecution
  | cannotAcknowledgeAfterStartTime
  | cannotReportWhenNotAcknowledged
  | advertisementNotFound
  | tooManyAllowedConsumers
  | tooFewAllowedConsumers
  | cannotDeleteAdvertisementWhileMatched
  | overdueMatch
  | underdueMatch
  | incorrectSourceCountInMatch
  | incorrectExecutionIndex
  | duplicateSourceInMatch
  | unverifiedSourceInMatch
  | networkRequestQuotaExceededInMatch
  | sourceNotAllowedInMatch
  | consumerNotAllowedInMatch
  | insufficientRewardInMatch
  | insufficientReputationInMatch
  | scheduleOverlapInMatch
  | reportFromUnassignedSource
  | moreReportsThanExpected
  | reportOutsideSchedule
  | reputationNotFound
  | moduleNotAvailableInMatch
  | processorVersionMismatch
  | processorMinMetricsNotMet (poolId : PoolId)
  | executionAlreadyReported
  | jobNotFound
  | immutableJobCannotBeEdited
  | mutableJobCannotBeMadeImmutable
  | onlyEditorCanEditScript
  | onlyEditorCanTransferEditor
  | onlyOwnerCanExtendJob
  | jobForKeyReuseNotFound
  | cannotReuseKeysFrom
  /-- `Other("Unexpected MultiOrigin")` -/
  | unexpectedMultiOrigin
  /-- `Other("Severe Error: JobBudget::reserve failed")` -/
  | reserveFailed
  /-- `Other("Severe Error: JobBudget::unreserve failed")` -/
  | unreserveFailed
  deriving DecidableEq

abbrev Result (α : Type) := Except Error α

variable {T : Config A}

def State.now (s : State T) : Result ℕ := do
  ensure (s.time < 2 ^ 64) .failedTimestampConversion
  pure s.time

end Acurast.Marketplace
