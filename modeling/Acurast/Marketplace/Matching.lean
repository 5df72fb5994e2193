import Acurast.Marketplace.Payments

/-! Matching of jobs and processors: the checks of a proposed match, the assignments it makes, and
their acknowledgement. -/

namespace Acurast.Marketplace

open Base

variable {A : Type} [DecidableEq A] {T : Config A}

def isConsumerAllowed (consumer : MultiOrigin A) (allowedConsumers : Option (List (MultiOrigin A))) :
    Bool :=
  (allowedConsumers.map fun allowed => decide (consumer ∈ allowed)).getD true

def isProcessorAllowed (source : A) (allowedSources : Option (List A)) : Bool :=
  (allowedSources.map fun allowed => decide (source ∈ allowed)).getD true

def priceFor (s : State T) (processor : A) (schedule : Schedule) : ℕ :=
  let settings := s.jobPriceSettings.getD ⟨T.defaultMinPrice, T.defaultPriceMultiplier⟩
  let price := ((T.pricePerMillisecondFor s.world processor).map fun price =>
    saturatingMul 128 price schedule.duration).getD 0
  max (FixedU128.saturatingMulInt settings.multiplier price) settings.minPrice

def checkNetworkRequestQuotaSufficient (ad : AdvertisementRestriction A) (schedule : Schedule)
    (networkRequests : ℕ) : Result Unit :=
  ensure ((checkedMul 64 networkRequests 1000).getD (maxOf 64) ≤
    (checkedMul 64 schedule.duration ad.networkRequestQuota).getD 0) .networkRequestQuotaExceededInMatch

def checkMinReputation (s : State T) (minReputation : Option ℕ) (source : A) : Result Unit :=
  whenSome minReputation () fun required => do
    let params ← okOr (s.storedReputation.lookup source) .reputationNotFound
    let reputation ← okOr (BetaReputation.normalize params) .calculationOverflow
    ensure (PerThing.fromParts (required % 2 ^ 32) ≤ reputation) .insufficientReputationInMatch

def checkProcessorVersion (s : State T) (required : Option (List Version)) (source : A) : Result Unit :=
  whenSome required () fun versions => do
    let version ← okOr (T.processorVersion s.world source) .processorVersionMismatch
    ensure (versions.any (version.ge ·) = true) .processorVersionMismatch

def checkMinMetrics (s : State T) (jobId : JobId A) (processor : A) : Result Unit :=
  whenSome (s.requiredMinMetrics.lookup jobId) () fun minMetrics => minMetrics.forM fun minMetric => do
    let metric ← okOr (T.lastProcessorMetric s.world processor minMetric.poolId)
      (.processorMinMetricsNotMet minMetric.poolId)
    ensure (minMetric.value ≤ metric) (.processorMinMetricsNotMet minMetric.poolId)

def windows (schedule : Schedule) (starts : List ℕ) : List (Option (ℕ × ℕ)) :=
  starts.map fun start => (checkedAdd 64 start schedule.duration).map (start, ·)

def windowLe : Option (ℕ × ℕ) → Option (ℕ × ℕ) → Bool
  | none, _ => true
  | some _, none => false
  | some (a, b), some (c, d) => a < c ∨ a = c ∧ b ≤ d

def checkSequence (prevEnd : ℕ) (bounds : Option (ℕ × ℕ)) : Result ℕ := do
  let (start, stop) ← okOr bounds .calculationOverflow
  ensure (prevEnd ≤ start) .scheduleOverlapInMatch
  pure stop

def executionWindow (schedule : Schedule) (startDelay executionIndex : ℕ) : Result (ℕ × ℕ) := do
  let start ← okOr (schedule.nthStartTime startDelay executionIndex) .calculationOverflow
  let stop ← okOr (checkedAdd 64 start schedule.duration) .calculationOverflow
  pure (start, stop)

def fitsAssignment (execution : ExecutionSpecifier) (schedule : Schedule) (startDelay : ℕ)
    (other : Schedule) (assignment : Assignment) : Result Unit :=
  if schedule.overlaps startDelay (other.range assignment.startDelay) = false then pure ()
  else
    match execution, assignment.execution with
    | .all, .all => do
      let starts ← okOr (schedule.starts startDelay) .calculationOverflow
      let otherStarts ← okOr (other.starts assignment.startDelay) .calculationOverflow
      let _ ← ((windows schedule starts).merge (windows other otherStarts) windowLe).foldlM
        checkSequence 0
    | .all, .index otherIndex => do
      let window ← executionWindow other assignment.startDelay otherIndex
      ensure (schedule.overlaps startDelay window = false) .scheduleOverlapInMatch
    | .index index, .all => do
      let window ← executionWindow schedule startDelay index
      -- the other schedule is asked with the delay of the planned execution
      ensure (other.overlaps startDelay window = false) .scheduleOverlapInMatch
    | .index index, .index otherIndex => do
      let (start, stop) ← executionWindow schedule startDelay index
      let (otherStart, otherStop) ← executionWindow other assignment.startDelay otherIndex
      ensure (¬ (otherStart < stop ∧ start < otherStop)) .scheduleOverlapInMatch

def fitsSchedule (s : State T) (source : A) (execution : ExecutionSpecifier) (schedule : Schedule)
    (startDelay : ℕ) : Result Unit := do
  let now ← s.now
  (iterPrefix s.storedMatches source).forM fun (jobId, assignment) =>
    whenSome (s.storedJobRegistration.lookup jobId) () fun other =>
      if assignment.isInvalid other.schedule now T.reportTolerance = true then pure ()
      else fitsAssignment execution schedule startDelay other.schedule assignment

def checkSource (s : State T) (verified : A → Bool) (jobId : JobId A)
    (registration : JobRegistration A) (execution : ExecutionSpecifier) (planned : PlannedExecution A) :
    Result ℕ := do
  ensure (registration.allowOnlyVerifiedSources = false ∨ verified planned.source = true)
    .unverifiedSourceInMatch
  let ad ← okOr (s.storedAdvertisementRestriction.lookup planned.source) .advertisementNotFound
  ensure (∀ required ∈ registration.requiredModules, required ∈ ad.availableModules)
    .moduleNotAvailableInMatch
  checkNetworkRequestQuotaSufficient ad registration.schedule registration.networkRequests
  ensure (isProcessorAllowed planned.source registration.allowedSources = true) .sourceNotAllowedInMatch
  ensure (isConsumerAllowed jobId.1 ad.allowedConsumers = true) .consumerNotAllowedInMatch
  checkMinReputation s registration.extra.minReputation planned.source
  checkProcessorVersion s registration.extra.processorVersion planned.source
  checkMinMetrics s jobId planned.source
  fitsSchedule s planned.source execution registration.schedule planned.startDelay
  let feePerExecution := priceFor s planned.source registration.schedule
  ensure (feePerExecution ≤ registration.extra.reward) .insufficientRewardInMatch
  pure feePerExecution

def updateAverageReward (s : State T) (feePerExecution : ℕ) : Result (State T) := do
  let totalAssigned := saturatingAdd 128 (s.storedTotalAssigned.getD 0) 1
  let totalReward ← okOr (checkedMul 128 (s.storedAverageReward.getD 0) (totalAssigned - 1))
    .calculationOverflow
  let newTotalRewards ← okOr (checkedAdd 128 totalReward feePerExecution) .calculationOverflow
  let newAverageReward ← okOr (checkedDiv newTotalRewards totalAssigned) .calculationOverflow
  pure { s with storedTotalAssigned := some totalAssigned, storedAverageReward := some newAverageReward }

def lengthU8 {α : Type} (l : List α) : ℕ := if l.length < 2 ^ 8 then l.length else 0

def State.assign (s : State T) (source : A) (jobId : JobId A) (assignment : Assignment) : State T :=
  { s with
    storedMatches := s.storedMatches.insert (source, jobId) assignment
    assignedProcessors := s.assignedProcessors.insert (jobId, source) () }

def assignSource (jobId : JobId A) (registration : JobRegistration A) (matcher : Option A)
    (acc : State T × ℕ × ℕ) (entry : PlannedExecution A × ℕ) : Result (State T × ℕ × ℕ) := do
  let (s, totalFee, totalRewardPerExecution) := acc
  let (planned, slot) := entry
  let feePerExecution ← checkSource s (T.sourceVerifiedCore s.world) jobId registration .all planned
  let executionCount := registration.schedule.executionCount
  let fee ← okOr (checkedMul 128 feePerExecution executionCount) .calculationOverflow
  let totalFee ← okOr (checkedAdd 128 totalFee fee) .calculationOverflow
  let totalRewardPerExecution ← okOr (checkedAdd 128 totalRewardPerExecution feePerExecution)
    .calculationOverflow
  ensure (s.storedMatches.lookup (planned.source, jobId) = none) .duplicateSourceInMatch
  let s := s.assign planned.source jobId {
    slot := slot % 2 ^ 8
    startDelay := planned.startDelay
    feePerExecution
    acknowledged := false
    sla := ⟨executionCount, 0⟩
    pubKeys := []
    execution := .all }
  let s := match matcher with
    | some account => { s with jobMatcher := s.jobMatcher.insert jobId account }
    | none => s
  pure (s, totalFee, totalRewardPerExecution)

def matchJob (matcher : Option A) (s : State T) (m : Match A) : Result (State T) := do
  let status ← okOr (s.storedJobStatus.lookup m.jobId) .jobStatusNotFound
  if status ≠ .opened then pure s
  else do
    let registration ← okOr (s.storedJobRegistration.lookup m.jobId) .jobRegistrationNotFound
    let now ← s.now
    ensure (now < registration.schedule.startTime) .overdueMatch
    ensure (lengthU8 m.sources = registration.extra.slots) .incorrectSourceCountInMatch
    let (s, _, totalRewardPerExecution) ←
      m.sources.zipIdx.foldlM (assignSource m.jobId registration matcher) (s, 0, 0)
    let s ← if 0 < totalRewardPerExecution then
        updateAverageReward s (totalRewardPerExecution / m.sources.length)
      else pure s
    pure { s with storedJobStatus := s.storedJobStatus.insert m.jobId .matched }

def processMatching (s : State T) (matching : List (Match A)) (matcher : Option A) : Result (State T) :=
  matching.foldlM (matchJob matcher) s

def State.unassign (s : State T) (source : A) (jobId : JobId A) : State T :=
  { s with
    storedMatches := s.storedMatches.erase (source, jobId)
    assignedProcessors := s.assignedProcessors.erase (jobId, source) }

def cleanupProcessor (jobId : JobId A) (indexToCleanup : ℕ) (s : State T) (processor : A) : State T :=
  match s.storedMatches.lookup (processor, jobId) with
  | some assignment =>
    match assignment.execution with
    | .index index => if index ≤ indexToCleanup then s.unassign processor jobId else s
    | .all => s
  | none => { s with assignedProcessors := s.assignedProcessors.erase (jobId, processor) }

def cleanupPreviousExecutionMatches (s : State T) (jobId : JobId A) (executionIndex : ℕ) : State T :=
  if executionIndex < 2 then s
  else
    let s := { s with
      storedJobExecutionStatus := s.storedJobExecutionStatus.erase (jobId, executionIndex - 2) }
    ((iterPrefix s.assignedProcessors jobId).map (·.1)).foldl
      (cleanupProcessor jobId (executionIndex - 2)) s

def nextSla (previous : Option Assignment) : Sla :=
  match previous with
  | some assignment => ⟨saturatingAdd 64 assignment.sla.total 1, assignment.sla.met⟩
  | none => ⟨1, 0⟩

def assignExecutionSource (jobId : JobId A) (registration : JobRegistration A) (executionIndex : ℕ)
    (acc : State T × ℕ) (entry : PlannedExecution A × ℕ) : Result (State T × ℕ) := do
  let (s, totalFee) := acc
  let (planned, slot) := entry
  let feePerExecution ←
    checkSource s (T.sourceVerified s.world) jobId registration (.index executionIndex) planned
  let totalFee ← okOr (checkedAdd 128 totalFee feePerExecution) .calculationOverflow
  let previous := s.storedMatches.lookup (planned.source, jobId)
  ensure (previous.all (·.execution ≠ .index executionIndex) = true) .duplicateSourceInMatch
  let s := s.assign planned.source jobId {
    slot := slot % 2 ^ 8
    startDelay := planned.startDelay
    feePerExecution
    acknowledged := false
    sla := nextSla previous
    pubKeys := []
    execution := .index executionIndex }
  pure (s, totalFee)

def State.executionStatus (s : State T) (jobId : JobId A) (executionIndex : ℕ) : JobStatus :=
  StorageMap.getD s.storedJobExecutionStatus (jobId, executionIndex) .opened

def matchExecution (matcher : Option A) (s : State T) (m : ExecutionMatch A) : Result (State T) :=
  if s.executionStatus m.jobId m.executionIndex ≠ .opened then pure s
  else do
    let registration ← okOr (s.storedJobRegistration.lookup m.jobId) .jobRegistrationNotFound
    let now ← s.now
    let nthStartTimeLowerBound ← okOr (registration.schedule.nthStartTime 0 m.executionIndex)
      .incorrectExecutionIndex
    ensure (now < nthStartTimeLowerBound) .overdueMatch
    ensure (nthStartTimeLowerBound - T.matchingCompetingDueDelta ≤ now) .underdueMatch
    ensure (lengthU8 m.sources = registration.extra.slots) .incorrectSourceCountInMatch
    let s := cleanupPreviousExecutionMatches s m.jobId m.executionIndex
    let (s, totalFee) ←
      m.sources.zipIdx.foldlM (assignExecutionSource m.jobId registration m.executionIndex) (s, 0)
    let s ← if m.executionIndex = 0 ∧ totalFee ≠ 0 then do
        let average ← okOr (checkedDiv totalFee m.sources.length) .unexpectedCheckedCalculation
        updateAverageReward s average
      else pure s
    let s := { s with
      storedJobStatus := s.storedJobStatus.insert m.jobId .matched
      storedJobExecutionStatus :=
        s.storedJobExecutionStatus.insert (m.jobId, m.executionIndex) .matched }
    pure (match matcher with
      | some account => { s with jobMatcher := s.jobMatcher.insert m.jobId account }
      | none => s)

def processExecutionMatching (s : State T) (matching : List (ExecutionMatch A)) (matcher : Option A) :
    Result (State T) :=
  matching.foldlM (matchExecution matcher) s

def totalRewardAmount (registration : JobRegistration A) : Result ℕ := do
  let perExecution ← okOr (checkedMul 128 registration.extra.reward registration.extra.slots)
    .calculationOverflow
  okOr (checkedMul 128 perExecution registration.schedule.executionCount) .calculationOverflow

def checkReportIsTimely (T : Config A) (registration : JobRegistration A) (assignment : Assignment)
    (now executionIndex : ℕ) : Result Unit := do
  let executionStartTime ← okOr (registration.schedule.nthStartTime assignment.startDelay executionIndex)
    .reportOutsideSchedule
  ensure (executionStartTime ≤ now) .reportOutsideSchedule
  ensure (now < saturatingAdd 64 (saturatingAdd 64 executionStartTime registration.schedule.duration)
    T.reportTolerance) .reportOutsideSchedule

def doUpdateReputation (s : State T) (processor : A) (assignment : Assignment) (missingReports : ℕ) :
    Result (State T) :=
  if T.sourceVerified s.world processor = true ∧ 0 < assignment.feePerExecution then do
    let params ← okOr (s.storedReputation.lookup processor) .reputationNotFound
    let params ← okOr (BetaReputation.update params assignment.sla.met missingReports
      assignment.feePerExecution (s.storedAverageReward.getD 0)) .calculationOverflow
    pure { s with storedReputation := s.storedReputation.insert processor params }
  else pure s

def updateAssignmentToAcknowledged (s : State T) (processor : A) (jobId : JobId A)
    (execution : ExecutionSpecifier) (pubKeys : List PubKey) (schedule : Schedule) :
    Result (State T × Bool × Assignment) := do
  let assignment ← okOr (s.storedMatches.lookup (processor, jobId)) .cannotAcknowledgeWhenNotMatched
  let now ← s.now
  let actualStartTime := match execution with
    | .all => saturatingAdd 64 schedule.startTime assignment.startDelay
    | .index i => (schedule.nthStartTime assignment.startDelay i).getD 0
  ensure (now ≤ actualStartTime) .cannotAcknowledgeAfterStartTime
  ensure (assignment.execution = execution) .cannotAcknowledgeForOtherThanCurrentExecution
  let assignment' := { assignment with acknowledged := true, pubKeys }
  pure ({ s with storedMatches := s.storedMatches.insert (processor, jobId) assignment' },
    !assignment.acknowledged, assignment')

def acknowledgedStatus : JobStatus → Result JobStatus
  | .opened => throw .cannotAcknowledgeWhenNotMatched
  | .matched => pure (.assigned 1)
  | .assigned count => pure (.assigned ((count + 1) % 2 ^ 8))

def updateJobStatus (s : State T) (jobId : JobId A) (execution : ExecutionSpecifier) :
    Result (State T) :=
  match execution with
  | .all => do
    let status ← okOr (s.storedJobStatus.lookup jobId) .jobStatusNotFound
    let status ← acknowledgedStatus status
    pure { s with storedJobStatus := s.storedJobStatus.insert jobId status }
  | .index executionIndex => do
    let status ← acknowledgedStatus (s.executionStatus jobId executionIndex)
    pure { s with
      storedJobExecutionStatus := s.storedJobExecutionStatus.insert (jobId, executionIndex) status
      storedJobStatus := s.storedJobStatus.insert jobId status }

def updateNextReportIndexOnAcknowledge (s : State T) (jobId : JobId A) (processor : A)
    (assignment : Assignment) (execution : ExecutionSpecifier) : Result (State T) :=
  match execution with
  | .all => pure { s with nextReportIndex := s.nextReportIndex.insert (jobId, processor) 0 }
  | .index executionIndex =>
    match s.nextReportIndex.lookup (jobId, processor) with
    | none =>
      pure { s with nextReportIndex := s.nextReportIndex.insert (jobId, processor) executionIndex }
    | some oldValue => do
      let registration ← okOr (s.storedJobRegistration.lookup jobId) .jobRegistrationNotFound
      let now ← s.now
      if (checkReportIsTimely T registration assignment now oldValue).isOk then pure s
      else do
        let s ← doUpdateReputation s processor assignment 1
        pure { s with nextReportIndex := s.nextReportIndex.insert (jobId, processor) executionIndex }

def matcherRemaining (registration : JobRegistration A) (assignment : Assignment)
    (execution : ExecutionSpecifier) : ℕ :=
  let priceDiff := registration.extra.reward - assignment.feePerExecution
  match execution with
  | .all => saturatingMul 128 priceDiff registration.schedule.executionCount
  | .index _ => priceDiff

def processAcknowledgeMatch (s : State T) (who : A) (jobId : JobId A) (execution : ExecutionSpecifier)
    (pubKeys : List PubKey) : Result (State T) := do
  let job ← okOr (s.storedJobRegistration.lookup jobId) .jobNotFound
  let (s, changed, assignment) ←
    updateAssignmentToAcknowledged s who jobId execution pubKeys job.schedule
  if changed = true then do
    let s ← updateJobStatus s jobId execution
    let s ← updateNextReportIndexOnAcknowledge s jobId who assignment execution
    let world ← okOr (T.assignJob s.world jobId assignment.pubKeys) .outside
    let s := { s with world }
    match s.jobMatcher.lookup jobId with
    | some matcher => payMatcherReward s jobId (matcherRemaining job assignment execution) matcher
    | none => pure s
  else pure s

end Acurast.Marketplace
