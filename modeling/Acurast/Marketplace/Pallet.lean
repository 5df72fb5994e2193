import Acurast.Base.Run
import Acurast.Marketplace.Matching

/-! The calls of the marketplace and of the pallet that keeps the registrations, and the steps of a
chain that runs both. -/

namespace Acurast.Marketplace

open Base

variable {A : Type} [DecidableEq A] {T : Config A}

def doAdvertise (s : State T) (processor : A) (advertisement : AdvertisementRestriction A) :
    Result (State T) := do
  whenSome advertisement.allowedConsumers () fun allowedConsumers => do
    ensure (0 < allowedConsumers.length) .tooFewAllowedConsumers
    ensure (allowedConsumers.length ≤ T.maxAllowedConsumers) .tooManyAllowedConsumers
  pure { s with
    storedAdvertisementRestriction := s.storedAdvertisementRestriction.insert processor advertisement
    storedReputation := if s.storedReputation.lookup processor = none then
        s.storedReputation.insert processor default
      else s.storedReputation }

def deleteAdvertisement (s : State T) (who : A) : Result (State T) := do
  let _ ← okOr (s.storedAdvertisementRestriction.lookup who) .advertisementNotFound
  ensure (iterPrefix s.storedMatches who = []) .cannotDeleteAdvertisementWhileMatched
  pure { s with storedAdvertisementRestriction := s.storedAdvertisementRestriction.erase who }

def updateAssignment (s : State T) (processor : A) (jobId : JobId A) : Result (State T × Assignment) := do
  let assignment ← okOr (s.storedMatches.lookup (processor, jobId)) .reportFromUnassignedSource
  ensure (assignment.acknowledged = true) .cannotReportWhenNotAcknowledged
  ensure (assignment.sla.met < assignment.sla.total) .moreReportsThanExpected
  let assignment :=
    { assignment with sla := { assignment.sla with met := assignment.sla.met + 1 } }
  pure ({ s with storedMatches := s.storedMatches.insert (processor, jobId) assignment }, assignment)

def bookedExecution (T : Config A) (registration : JobRegistration A) (assignment : Assignment)
    (now executionIndex expectedReportIndex : ℕ) : Result (ℕ × ℕ) :=
  if (checkReportIsTimely T registration assignment now expectedReportIndex).isOk = false ∧
      expectedReportIndex ≠ executionIndex then do
    checkReportIsTimely T registration assignment now executionIndex
    pure (executionIndex, executionIndex - expectedReportIndex)
  else pure (expectedReportIndex, 0)

def nextExpectedReport (assignment : Assignment) (reported : ℕ) : Option ℕ :=
  match assignment.execution with
  | .all => if reported + 1 < assignment.sla.total then some (reported + 1) else none
  | .index index => if reported ≠ index then some index else none

def setOrRemove {K V : Type} [DecidableEq K] (m : StorageMap K V) (k : K) : Option V → StorageMap K V
  | some v => m.insert k v
  | none => m.erase k

def updateNextReportIndexOnReport (s : State T) (jobId : JobId A) (processor : A)
    (registration : JobRegistration A) (assignment : Assignment) :
    Result (State T × ℕ × Option ℕ) := do
  let now ← s.now
  let executionIndex :=
    (registration.schedule.currentExecutionIndex assignment.startDelay now).getD 0
  let expectedReportIndex := (s.nextReportIndex.lookup (jobId, processor)).getD executionIndex
  ensure (expectedReportIndex ≤ executionIndex) .executionAlreadyReported
  let (reported, missingReports) ←
    bookedExecution T registration assignment now executionIndex expectedReportIndex
  let value := nextExpectedReport assignment reported
  pure ({ s with nextReportIndex := setOrRemove s.nextReportIndex (jobId, processor) value },
    missingReports, value)

def doReport (s : State T) (jobId : JobId A) (processor : A) : Result (State T) := do
  let (s, assignment) ← updateAssignment s processor jobId
  let registration ← okOr (s.storedJobRegistration.lookup jobId) .jobRegistrationNotFound
  let (s, missingReports, nextExpectedReportIndex) ←
    updateNextReportIndexOnReport s jobId processor registration assignment
  let s ← handleReward s jobId assignment.feePerExecution
  let s ← doUpdateReputation s processor assignment missingReports
  pure (if nextExpectedReportIndex = none then s.unassign processor jobId else s)

def doCleanupAssignment (s : State T) (processor : A) (jobId : JobId A) (now : ℕ) : State T :=
  match s.storedMatches.lookup (processor, jobId) with
  | none => s
  | some assignment =>
    match s.storedJobRegistration.lookup jobId with
    | none => s.unassign processor jobId
    | some job =>
      if assignment.isInvalid job.schedule now T.reportTolerance = true then s.unassign processor jobId
      else s

def doCleanupAssignments (s : State T) (processor : A) (jobIds : List (JobId A)) :
    Result (State T) := do
  let now ← s.now
  pure (jobIds.foldl (fun s jobId => doCleanupAssignment s processor jobId now) s)

def State.unassignAll (s : State T) (jobId : JobId A) (processors : List A) : State T :=
  processors.foldl (fun s processor => s.unassign processor jobId) s

def State.processorsOf (s : State T) (jobId : JobId A) : List A :=
  (iterPrefix s.assignedProcessors jobId).map (·.1)

def cleanupStorage (s : State T) (jobId : JobId A) (maxIterations : ℕ) : State T :=
  if s.storedJobRegistration.lookup jobId = none then
    s.unassignAll jobId ((s.processorsOf jobId).take maxIterations)
  else s

def isJobExpired (s : State T) (jobId : JobId A) (now : ℕ) : Bool :=
  ((s.storedJobRegistration.lookup jobId).map fun job =>
    job.schedule.isExpired now T.reportTolerance).getD true

def cleanupJobAssignments (s : State T) (jobId : JobId A) : Result (State T) := do
  let now ← s.now
  pure (if isJobExpired s jobId now = true then s.unassignAll jobId (s.processorsOf jobId) else s)

def cleanupJobMatcher (s : State T) (jobId : JobId A) : Result (State T) := do
  let now ← s.now
  pure (if isJobExpired s jobId now = true then { s with jobMatcher := s.jobMatcher.erase jobId } else s)

def checkRegistration (s : State T) (registration : JobRegistration A) : Result Unit := do
  ensure (0 < registration.schedule.duration) .jobRegistrationZeroDuration
  let executionCount := registration.schedule.executionCount
  ensure (executionCount ≤ maxExecutionsPerJob) .jobRegistrationScheduleExceedsMaximumExecutions
  ensure (0 < executionCount) .jobRegistrationScheduleContainsZeroExecutions
  ensure (registration.schedule.duration < registration.schedule.interval)
    .jobRegistrationDurationExceedsInterval
  let now ← s.now
  ensure (now ≤ registration.schedule.startTime) .jobRegistrationStartInPast
  ensure (registration.schedule.startTime ≤ registration.schedule.endTime) .jobRegistrationEndBeforeStart
  ensure (0 < registration.extra.slots) .jobRegistrationZeroSlots
  ensure (registration.extra.slots ≤ T.maxSlots) .tooManySlots

def openJob (s : State T) (jobId : JobId A) : Result (State T) :=
  match s.storedJobStatus.lookup jobId with
  | some status => do
    ensure (status = .opened) .jobRegistrationUnmodifiable
    pure s
  | none => pure { s with storedJobStatus := s.storedJobStatus.insert jobId .opened }

def matchInstantly (s : State T) (jobId : JobId A) (registration : JobRegistration A) :
    Result (State T) :=
  match registration.extra.assignmentStrategy with
  | .single instantMatch => whenSome instantMatch s fun sources => processMatching s [⟨jobId, sources⟩] none
  | .competing => do
    ensure (registration.schedule.executionCount ≤ 1 ∨
      T.matchingCompetingMinInterval ≤ registration.schedule.interval) .jobRegistrationIntervalBelowMinimum
    pure s

def admitJob (s : State T) (jobId : JobId A) (registration : JobRegistration A) : Result (State T) := do
  checkRegistration s registration
  openJob s jobId

def registerHook (s : State T) (jobId : JobId A) (registration : JobRegistration A) :
    Result (State T) := do
  let s ← admitJob s jobId registration
  let s ← matchInstantly s jobId registration
  let reward ← totalRewardAmount registration
  lockReward s jobId reward

def storeRegistration (s : State T) (jobId : JobId A) (registration : JobRegistration A)
    (minMetrics : Option (List (PoolId × ℕ × ℕ))) : Result (State T) := do
  ensure (T.isValidScript registration.script = true) .invalidScriptValue
  whenSome registration.allowedSources () fun allowedSources => do
    ensure (0 < allowedSources.length) .tooFewAllowedSources
    ensure (allowedSources.length ≤ T.maxAllowedSources) .tooManyAllowedSources
  let s := { s with
    storedJobRegistration := s.storedJobRegistration.insert jobId registration
    history := .registered jobId registration :: s.history }
  whenSome minMetrics s fun metrics => do
    let metrics := metrics.filterMap MinMetric.checkedFrom
    ensure (metrics.length ≤ metricsMaxLength) .tooManyMinMetrics
    pure { s with requiredMinMetrics := s.requiredMinMetrics.insert jobId metrics }

def registerFor (s : State T) (jobId : JobId A) (registration : JobRegistration A)
    (minMetrics : Option (List (PoolId × ℕ × ℕ))) : Result (State T) := do
  let s ← storeRegistration s jobId registration minMetrics
  registerHook s jobId registration

def releaseProcessor (jobId : JobId A) (registration : JobRegistration A) (now : ℕ) (s : State T)
    (processor : A) : Result (State T) :=
  let assignment := s.storedMatches.lookup (processor, jobId)
  let s := s.unassign processor jobId
  whenSome assignment s fun assignment =>
    let due : Bool := match assignment.execution with
      | .all => true
      | .index index =>
        decide (index = registration.schedule.nextExecutionIndex assignment.startDelay now)
    if due = true ∧ assignment.acknowledged = true then handleReward s jobId assignment.feePerExecution
    else pure s

def finalizeJob (s : State T) (jobId : JobId A) : Result (State T) := do
  let (s, remaining) ← refund s jobId
  let world ← okOr (T.finalizeJob s.world jobId remaining) .outside
  pure { s with world }

def clearStatus (s : State T) (jobId : JobId A) (limit : ℕ) : State T :=
  { s with
    storedJobStatus := s.storedJobStatus.erase jobId
    storedJobExecutionStatus := clearPrefixLimit s.storedJobExecutionStatus jobId limit }

def deregisterHook (s : State T) (jobId : JobId A) : Result (State T) := do
  let jobStatus ← okOr (s.storedJobStatus.lookup jobId) .jobStatusNotFound
  let registration ← okOr (s.storedJobRegistration.lookup jobId) .jobRegistrationNotFound
  let s := { s with jobKeyIds := s.jobKeyIds.erase jobId }
  let executions := registration.schedule.executionCount % 2 ^ 32
  match jobStatus with
  | .opened => do
    let s ← finalizeJob s jobId
    pure (clearStatus s jobId executions)
  | .matched => do
    let s ← finalizeJob s jobId
    pure (clearStatus (s.unassignAll jobId (s.processorsOf jobId)) jobId executions)
  | .assigned _ => do
    let now ← s.now
    let s ← (s.processorsOf jobId).foldlM (releaseProcessor jobId registration now) s
    let s ← finalizeJob s jobId
    let s := clearStatus s jobId 10
    pure { s with
      nextReportIndex := clearPrefixLimit s.nextReportIndex jobId T.maxSlots
      jobMatcher := s.jobMatcher.erase jobId }

def clearEnvironmentFor (s : State T) (jobId : JobId A) : State T :=
  { s with
    executionEnvironment := clearPrefixLimit s.executionEnvironment jobId T.maxSlots }

def deregisterFor (s : State T) (jobId : JobId A) : Result (State T) := do
  let s ← deregisterHook s jobId
  let s := clearEnvironmentFor s jobId
  pure { s with
    storedJobRegistration := s.storedJobRegistration.erase jobId
    requiredMinMetrics := s.requiredMinMetrics.erase jobId }

def setEnvironmentFor (s : State T) (jobId : JobId A) (environments : List (A × Environment)) :
    Result (State T) :=
  environments.foldlM (fun s (source, environment) => do
    let _ ← okOr (s.storedJobRegistration.lookup jobId) .jobRegistrationNotFound
    pure { s with
      executionEnvironment := s.executionEnvironment.insert (jobId, source) environment }) s

def nextJobId (s : State T) : State T × ℕ :=
  let next := (s.localJobIdSequence + 1) % 2 ^ 128
  ({ s with localJobIdSequence := next }, next)

def register (s : State T) (who : A) (registration : JobRegistration A)
    (minMetrics : Option (List (PoolId × ℕ × ℕ))) : Result (State T) :=
  let (s, sequence) := nextJobId s
  registerFor s (.acurast who, sequence) registration minMetrics

def updateAllowedSource (sources : List A) (update : ListUpdateOperation × A) : List A :=
  match update.1 with
  | .add => if update.2 ∈ sources then sources else sources ++ [update.2]
  | .remove => sources.erase update.2

def updateAllowedSources (s : State T) (who : A) (sequence : ℕ)
    (updates : List (ListUpdateOperation × A)) : Result (State T) := do
  let jobId : JobId A := (.acurast who, sequence)
  let registration ← okOr (s.storedJobRegistration.lookup jobId) .jobRegistrationNotFound
  let sources := updates.foldl updateAllowedSource (registration.allowedSources.getD [])
  ensure (sources.length ≤ T.maxAllowedSources) .tooManyAllowedSources
  let allowedSources := if sources = [] then none else some sources
  let s := { s with storedJobRegistration :=
    (s.storedJobRegistration.insert jobId { registration with allowedSources }) }
  let jobStatus ← okOr (s.storedJobStatus.lookup jobId) .jobStatusNotFound
  match registration.extra.assignmentStrategy with
  | .single _ => do
    ensure (jobStatus = .opened) .jobRegistrationUnmodifiable
    pure s
  | .competing => pure s

def transferKeyId (s : State T) (original updated : DeploymentHash) : Result (State T × KeyId) := do
  let keyId ← okOr (s.deploymentKeyIds.lookup original) .cannotReuseKeysFrom
  pure ({ s with deploymentKeyIds := (s.deploymentKeyIds.erase original).insert updated keyId }, keyId)

def checkImmutable (s : State T) (deploymentHash : DeploymentHash) (reuseKeysFrom : Option (JobId A)) :
    Result Unit :=
  whenSome reuseKeysFrom () fun originalJobId => do
    whenSome (s.deploymentHashes.lookup originalJobId) () fun originalDeploymentHash =>
      ensure (originalDeploymentHash = deploymentHash) .immutableJobCannotBeEdited
    ensure (s.editors.lookup originalJobId = none) .mutableJobCannotBeMadeImmutable

def deriveKeyId (s : State T) (who : A) (jobId : JobId A) (deploymentHash : DeploymentHash)
    (editor : Option A) : Option (JobId A) → Result (State T × A × KeyId)
  | none => pure (s, editor.getD who, T.keyIdHash jobId)
  | some originalJobId => do
    ensure (originalJobId.1 = jobId.1) .onlyOwnerCanExtendJob
    let originalJobEditor ← okOr (s.editors.lookup originalJobId) .immutableJobCannotBeEdited
    let derivedEditor ← whenSome editor originalJobEditor fun editor => do
      ensure (jobId.1 = .acurast originalJobEditor ∨ originalJobEditor = editor)
        .onlyEditorCanTransferEditor
      pure editor
    let originalDeploymentHash ← okOr (s.deploymentHashes.lookup originalJobId) .jobForKeyReuseNotFound
    ensure (jobId.1 = .acurast originalJobEditor ∨ originalDeploymentHash = deploymentHash)
      .onlyEditorCanEditScript
    let (s, keyId) ← transferKeyId s originalDeploymentHash deploymentHash
    pure (s, derivedEditor, keyId)

def deployKeys (s : State T) (who : A) (jobId : JobId A) (deploymentHash : DeploymentHash)
    (reuseKeysFrom : Option (JobId A)) : ScriptMutability A → Result (State T)
  | .immutable => do
    checkImmutable s deploymentHash reuseKeysFrom
    pure s
  | .mutable editor => do
    let (s, derivedEditor, keyId) ← deriveKeyId s who jobId deploymentHash editor reuseKeysFrom
    pure { s with
      editors := s.editors.insert jobId derivedEditor
      deploymentKeyIds := s.deploymentKeyIds.insert deploymentHash keyId
      jobKeyIds := s.jobKeyIds.insert jobId keyId }

def prepareDeployment (s : State T) (who : A) (script : Script) (mutability : ScriptMutability A)
    (reuseKeysFrom : Option (JobId A)) : Result (State T × JobId A) := do
  let (s, sequence) := nextJobId s
  let jobId : JobId A := (.acurast who, sequence)
  let deploymentHash := T.deploymentHash jobId.1 script
  let s ← deployKeys s who jobId deploymentHash reuseKeysFrom mutability
  pure ({ s with deploymentHashes := s.deploymentHashes.insert jobId deploymentHash }, jobId)

def deploy (s : State T) (who : A) (registration : JobRegistration A) (mutability : ScriptMutability A)
    (reuseKeysFrom : Option (JobId A)) (minMetrics : Option (List (PoolId × ℕ × ℕ))) :
    Result (State T) := do
  let (s, jobId) ← prepareDeployment s who registration.script mutability reuseKeysFrom
  registerFor s jobId registration minMetrics

def editScript (s : State T) (who : A) (jobId : JobId A) (script : Script) : Result (State T) := do
  let editor ← okOr (s.editors.lookup jobId) .immutableJobCannotBeEdited
  ensure (editor = who) .onlyEditorCanTransferEditor
  ensure (T.isValidScript script = true) .invalidScriptValue
  let registration ← okOr (s.storedJobRegistration.lookup jobId) .jobNotFound
  let s := { s with storedJobRegistration :=
    (s.storedJobRegistration.insert jobId { registration with script }) }
  let updated := T.deploymentHash jobId.1 script
  let (s, _) ← transferKeyId s (T.deploymentHash jobId.1 registration.script) updated
  pure { s with deploymentHashes := s.deploymentHashes.insert jobId updated }

def transferEditor (s : State T) (who : A) (jobId : JobId A) (newEditor : Option A) :
    Result (State T) := do
  let editor ← okOr (s.editors.lookup jobId) .immutableJobCannotBeEdited
  ensure (editor = who) .onlyEditorCanEditScript
  pure { s with editors := setOrRemove s.editors jobId newEditor }

inductive Call (A : Type) where
  | register (registration : JobRegistration A) (minMetrics : Option (List (PoolId × ℕ × ℕ)))
  | deregister (sequence : ℕ)
  | updateAllowedSources (sequence : ℕ) (updates : List (ListUpdateOperation × A))
  | setEnvironments (sequence : ℕ) (environments : List (A × Environment))
  | advertise (advertisement : AdvertisementRestriction A)
  | deleteAdvertisement
  | proposeMatching (matching : List (Match A))
  | proposeExecutionMatching (matching : List (ExecutionMatch A))
  | acknowledgeMatch (jobId : JobId A) (pubKeys : List PubKey)
  | acknowledgeExecutionMatch (jobId : JobId A) (executionIndex : ℕ) (pubKeys : List PubKey)
  | report (jobId : JobId A)
  | finalizeJob (jobId : JobId A)
  | cleanupStorage (jobId : JobId A) (maxIterations : ℕ)
  | cleanupAssignments (jobIds : List (JobId A))
  | cleanupAssignmentsFor (processor : A) (jobIds : List (JobId A))
  | cleanupJobAssignments (jobId : JobId A)
  | cleanupJobMatcher (jobId : JobId A)
  | deploy (registration : JobRegistration A) (mutability : ScriptMutability A)
      (reuseKeysFrom : Option (JobId A)) (minMetrics : Option (List (PoolId × ℕ × ℕ)))
  | editScript (jobId : JobId A) (script : Script)
  | transferEditor (jobId : JobId A) (newEditor : Option A)
  | updatePriceSettings (settings : Option PriceSettings)

def dispatchSigned (s : State T) (who : A) : Call A → Result (State T)
  | .register registration minMetrics => register s who registration minMetrics
  | .deregister sequence => deregisterFor s (.acurast who, sequence)
  | .updateAllowedSources sequence updates => updateAllowedSources s who sequence updates
  | .setEnvironments sequence environments => setEnvironmentFor s (.acurast who, sequence) environments
  | .advertise advertisement => doAdvertise s who advertisement
  | .deleteAdvertisement => deleteAdvertisement s who
  | .proposeMatching matching => processMatching s matching (some who)
  | .proposeExecutionMatching matching => processExecutionMatching s matching (some who)
  | .acknowledgeMatch jobId pubKeys => processAcknowledgeMatch s who jobId .all pubKeys
  | .acknowledgeExecutionMatch jobId executionIndex pubKeys =>
    processAcknowledgeMatch s who jobId (.index executionIndex) pubKeys
  | .report jobId => doReport s jobId who
  | .finalizeJob jobId => doCleanupAssignments s who [jobId]
  | .cleanupAssignments jobIds => doCleanupAssignments s who jobIds
  | .cleanupAssignmentsFor processor jobIds => doCleanupAssignments s processor jobIds
  | .cleanupJobAssignments jobId => cleanupJobAssignments s jobId
  | .cleanupJobMatcher jobId => cleanupJobMatcher s jobId
  | .deploy registration mutability reuseKeysFrom minMetrics =>
    deploy s who registration mutability reuseKeysFrom minMetrics
  | .editScript jobId script => editScript s who jobId script
  | .transferEditor jobId newEditor => transferEditor s who jobId newEditor
  | .cleanupStorage .. | .updatePriceSettings .. => throw .badOrigin

def dispatch (s : State T) (origin : Origin A) (call : Call A) : Result (State T) :=
  match call with
  | .cleanupStorage jobId maxIterations => do
    ensure (T.operatorOrigin origin = true) .badOrigin
    pure (cleanupStorage s jobId maxIterations)
  | .updatePriceSettings settings => do
    ensure (T.updateOrigin origin = true) .badOrigin
    pure { s with jobPriceSettings := settings }
  | call =>
    match origin with
    | .root => throw .badOrigin
    | .signed who => dispatchSigned s who call

inductive Action (A : Type) where
  | registerJob (jobId : JobId A) (registration : JobRegistration A)
  | deregisterJob (jobId : JobId A)
  | setJobEnvironment (jobId : JobId A) (environments : List (A × Environment))

def execute (s : State T) : Action A → Result (State T)
  | .registerJob jobId registration => registerFor s jobId registration none
  | .deregisterJob jobId => deregisterFor s jobId
  | .setJobEnvironment jobId environments => setEnvironmentFor s jobId environments

inductive Op (T : Config A) where
  | dispatch (origin : Origin A) (call : Call A)
  | execute (action : Action A)
  | timestamp (now : ℕ)
  | outside (world : T.World)

def perform (s : State T) : Op T → Result (State T)
  | .dispatch origin call => dispatch s origin call
  | .execute action => execute s action
  | .timestamp now => pure { s with time := max s.time now }
  | .outside world => pure { s with world }

def step (s : State T) (op : Op T) : State T := transact s (perform s op)

abbrev reached (world : T.World) (ops : List (Op T)) : State T := run step (State.genesis T world) ops

end Acurast.Marketplace
