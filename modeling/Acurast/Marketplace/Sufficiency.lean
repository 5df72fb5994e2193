import Acurast.Marketplace.Budget

/-! No call fails for want of budget: only an acknowledgement, a report and a deregistration take from
one, and what they take is outstanding. -/

namespace Acurast.Marketplace

open Base

variable {A : Type} {T : Config A} [DecidableEq A] {s s' : State T} {p : A} {j : JobId A}
  {reg : JobRegistration A}

section Avoids

abbrev Afforded {α : Type} (x : Result α) : Prop := Avoids Error.unreserveFailed x

omit [DecidableEq A] in
@[simp] theorem now_afforded (s : State T) : Afforded s.now := by
  simp [State.now]

@[simp] theorem fitsAssignment_afforded (ex : ExecutionSpecifier) (sched : Schedule)
    (startDelay : ℕ) (other : Schedule) (a : Assignment) :
    Afforded (fitsAssignment ex sched startDelay other a) := by
  have hs : ∀ (l : List (Option (ℕ × ℕ))), Afforded (l.foldlM checkSequence 0) := by
    intro l
    exact avoids_foldlM (fun _ _ => by simp [checkSequence]) l 0
  have hw : ∀ (sched : Schedule) (delay i : ℕ), Afforded (executionWindow sched delay i) := by
    intro sched delay i
    simp [executionWindow]
  unfold fitsAssignment
  split_ifs
  · simp
  · split <;> simp [hs, hw]

theorem checkSource_afforded (s : State T) (verified : A → Bool) (j : JobId A)
    (reg : JobRegistration A) (ex : ExecutionSpecifier) (planned : PlannedExecution A) :
    Afforded (checkSource s verified j reg ex planned) := by
  have hm : Afforded (checkMinMetrics s j planned.source) := by
    simp only [checkMinMetrics, avoids_whenSome]
    intro ms _
    exact avoids_forM (fun _ => by simp) ms
  have hf : Afforded (fitsSchedule s planned.source ex reg.schedule
      planned.startDelay) := by
    simp only [fitsSchedule, avoids_bind, now_afforded, true_and]
    intro now _
    refine avoids_forM (fun entry => ?_) _
    simp only [avoids_whenSome]
    intro other _
    split_ifs <;> simp
  simp [checkSource, checkNetworkRequestQuotaSufficient, checkMinReputation, checkProcessorVersion,
    hm, hf]

omit [DecidableEq A] in
theorem updateAverageReward_afforded (s : State T) (fee : ℕ) : Afforded (updateAverageReward s fee) := by
  simp [updateAverageReward]

theorem matchJob_afforded (matcher : Option A) (s : State T) (m : Match A) :
    Afforded (matchJob matcher s m) := by
  have ha : ∀ reg, Afforded
      (m.sources.zipIdx.foldlM (assignSource m.jobId reg matcher) (s, 0, 0)) := by
    intro reg
    refine avoids_foldlM (fun acc entry => ?_) _ _
    simp [assignSource, checkSource_afforded]
  simp [matchJob, ha, updateAverageReward_afforded]

theorem matchExecution_afforded (matcher : Option A) (s : State T) (m : ExecutionMatch A) :
    Afforded (matchExecution matcher s m) := by
  have ha : ∀ reg (s : State T), Afforded (m.sources.zipIdx.foldlM
      (assignExecutionSource m.jobId reg m.executionIndex) (s, 0)) := by
    intro reg s
    refine avoids_foldlM (fun acc entry => ?_) _ _
    simp [assignExecutionSource, checkSource_afforded]
  simp [matchExecution, ha, updateAverageReward_afforded]

theorem registerFor_afforded (s : State T) (j : JobId A) (reg : JobRegistration A)
    (mins : Option (List (PoolId × ℕ × ℕ))) :
    Afforded (registerFor s j reg mins) := by
  have hs : Afforded (storeRegistration s j reg mins) := by
    simp [storeRegistration]
  have ha : ∀ s : State T, Afforded (admitJob s j reg) := by
    intro s
    simp only [admitJob, checkRegistration, openJob]
    split <;> simp
  have hm : ∀ s : State T, Afforded (matchInstantly s j reg) := by
    intro s
    unfold matchInstantly
    split
    · simp only [avoids_whenSome]
      exact fun _ _ => avoids_foldlM (matchJob_afforded none) _ s
    · simp
  have hl : ∀ (s : State T) r, Afforded (lockReward s j r) := by
    intro s r
    simp only [lockReward, fundingAccount, reserve]
    split <;> simp
  simp [registerFor, registerHook, totalRewardAmount, hs, ha, hm, hl]

theorem prepareDeployment_afforded (s : State T) (p : A) (script : Script)
    (mutability : ScriptMutability A) (reuseKeysFrom : Option (JobId A)) :
    Afforded (prepareDeployment s p script mutability reuseKeysFrom) := by
  have hk : ∀ (s : State T) j hash, Afforded (deployKeys s p j hash reuseKeysFrom mutability) := by
    intro s j hash
    cases mutability with
    | immutable => simp [deployKeys, checkImmutable]
    | mutable editor => cases reuseKeysFrom <;> simp [deployKeys, deriveKeyId, transferKeyId]
  simp [prepareDeployment, hk]

theorem updateAllowedSources_afforded (s : State T) (p : A) (seq : ℕ)
    (ups : List (ListUpdateOperation × A)) :
    Afforded (updateAllowedSources s p seq ups) := by
  simp only [updateAllowedSources, avoids_bind, avoids_okOr, avoids_ensure, ne_eq, reduceCtorEq,
    not_false_eq_true, implies_true, true_and]
  intros
  split <;> simp

theorem setEnvironmentFor_afforded (s : State T) (j : JobId A) (envs : List (A × Environment)) :
    Afforded (setEnvironmentFor s j envs) :=
  avoids_foldlM (fun _ _ => by simp) envs s

theorem finalizeJob_afforded (s : State T) (j : JobId A) : Afforded (finalizeJob s j) := by
  simp only [finalizeJob, refund, fundingAccount]
  split <;> simp

variable {n : ℕ}

theorem unreserve_afforded (h : n ≤ s.book.budget j) : Afforded (unreserve s j n) := by
  have hc : n ≤ s.budget j := h
  simp [unreserve, hc]

theorem handleReward_afforded (h : n ≤ s.book.budget j) : Afforded (handleReward s j n) := by
  simp [handleReward, unreserve_afforded h]

theorem payMatcherReward_afforded {matcher : A}
    (h : T.matcherPercentage.mulFloor n ≤ s.book.budget j) :
    Afforded (payMatcherReward s j n matcher) := by
  have ht : ∀ (s : State T) acc x, Afforded (transferPositive s acc x) := by
    intro s acc x
    unfold transferPositive
    split_ifs <;> simp
  simp [payMatcherReward, unreserve_afforded h, ht]

theorem doUpdateReputation_afforded (s : State T) (p : A) (a : Assignment) (miss : ℕ) :
    Afforded (doUpdateReputation s p a miss) := by
  simp [doUpdateReputation]

theorem updateJobStatus_afforded (s : State T) (j : JobId A) (ex : ExecutionSpecifier) :
    Afforded (updateJobStatus s j ex) := by
  have hs : ∀ st, Afforded (acknowledgedStatus st) := by
    intro st
    cases st <;> simp [acknowledgedStatus]
  cases ex <;> simp [updateJobStatus, hs]

theorem updateNextReportIndexOnAcknowledge_afforded (s : State T) (j : JobId A) (p : A) (a : Assignment)
    (ex : ExecutionSpecifier) :
    Afforded (updateNextReportIndexOnAcknowledge s j p a ex) := by
  cases ex with
  | all => exact avoids_pure _
  | index i =>
    unfold updateNextReportIndexOnAcknowledge
    dsimp only
    split
    · exact avoids_pure _
    · simp [doUpdateReputation_afforded]

theorem updateNextReportIndexOnReport_afforded (s : State T) (j : JobId A) (p : A)
    (reg : JobRegistration A) (a : Assignment) :
    Afforded (updateNextReportIndexOnReport s j p reg a) := by
  simp [updateNextReportIndexOnReport, bookedExecution, checkReportIsTimely]

end Avoids

variable {a : Assignment} {op : Op T}

theorem matcherReward_le (hs : Solvent T s.book)
    (hr : s.storedJobRegistration.lookup j = some reg)
    (hf : s.storedMatches.lookup (p, j) = some a) (ha : a.acknowledged = false) :
    T.matcherPercentage.mulFloor (matcherRemaining reg a a.execution) ≤ s.book.budget j := by
  have ho := (hs.covered j reg hr).owed_le hf
  unfold owed at ho
  rw [if_neg (by rw [ha]; exact Bool.false_ne_true)] at ho
  omega

theorem processAcknowledgeMatch_afforded (hs : Solvent T s.book) (p : A) (j : JobId A)
    (ex : ExecutionSpecifier) (keys : List PubKey) :
    Afforded (processAcknowledgeMatch s p j ex keys) := by
  refine avoids_bind.mpr ⟨by simp, fun reg hre => ?_⟩
  rw [okOr_eq_ok] at hre
  refine avoids_bind.mpr ⟨by simp [updateAssignmentToAcknowledged], ?_⟩
  rintro ⟨s₁, changed, a'⟩ hu
  obtain ⟨a, hf, rfl, -, rfl, rfl, rfl⟩ := updateAssignmentToAcknowledged_ok hu
  refine avoids_ite.mpr ⟨fun hc => ?_, fun _ => avoids_pure _⟩
  have hr := matcherReward_le hs hre hf (by simpa using hc)
  refine avoids_bind.mpr ⟨updateJobStatus_afforded _ j _, fun s₁ ht => ?_⟩
  refine avoids_bind.mpr ⟨updateNextReportIndexOnAcknowledge_afforded s₁ j p _ _, fun s₂ hp => ?_⟩
  refine avoids_bind.mpr ⟨by simp, fun w _ => ?_⟩
  obtain ⟨next, reps, hb, -, -⟩ := updateNextReportIndexOnAcknowledge_book hp
  have hbu : s₂.book.budget j = s.book.budget j := by
    rw [hb]
    exact congrArg (StorageMap.getD · j 0) (updateJobStatus_acknowledges ht).fixed.2.2.2.1
  rw [← hbu] at hr
  dsimp only
  split
  · exact payMatcherReward_afforded hr
  · exact avoids_pure _

theorem doReport_afforded (hs : Solvent T s.book) (j : JobId A) (p : A) : Afforded (doReport s j p) := by
  refine avoids_bind.mpr ⟨by simp [updateAssignment], ?_⟩
  rintro ⟨s₁, a'⟩ hu
  obtain ⟨a, ho, ha, hf, rfl, rfl⟩ := updateAssignment_ok hu
  refine avoids_bind.mpr ⟨by simp, fun reg hr => ?_⟩
  rw [okOr_eq_ok] at hr
  refine avoids_bind.mpr ⟨updateNextReportIndexOnReport_afforded _ j p _ _, ?_⟩
  rintro ⟨s₂, miss, v⟩ hn
  obtain ⟨-, -, -, -, -, rfl⟩ := updateNextReportIndexOnReport_ok hn
  have how := (hs.covered j reg hr).owed_le ho
  have hw : a.feePerExecution ≤ s.book.budget j := (fee_le_owed hf).trans how
  refine avoids_bind.mpr ⟨handleReward_afforded hw, fun s₃ _ => ?_⟩
  simp [doUpdateReputation_afforded]

theorem due_le (hs : Solvent T s.book)
    (hr : s.storedJobRegistration.lookup j = some reg)
    (hf : s.storedMatches.lookup (p, j) = some a) (hd : dueAt reg s.time a)
    (ha : Affordable s.book (.release p j)) : a.feePerExecution ≤ s.book.budget j := by
  have hc := hs.covered j reg hr
  refine (fee_le_owed (hc.met_lt ha hr hf hd)).trans (hc.owed_le hf)

theorem releaseProcessors_afforded {l : List A}
    (hde : T.matchingCompetingDueDelta ≤ 2 * T.matchingCompetingMinInterval) (hs : Solvent T s.book)
    (hr : s.storedJobRegistration.lookup j = some reg)
    (hf : AlongM (releaseProcessor j reg s.time)
      (fun s p => Affordable s.book (.release p j)) s l) :
    Afforded (l.foldlM (releaseProcessor j reg s.time) s) := by
  induction l generalizing s with
  | nil => exact avoids_pure _
  | cons p l ih =>
    refine avoids_bind.mpr ⟨?_, fun s₁ hfi => ?_⟩
    · refine avoids_whenSome.mpr fun a ho => ?_
      refine avoids_ite.mpr ⟨fun hd => handleReward_afforded ?_, fun _ => avoids_pure _⟩
      have hfe : a.feePerExecution ≤ s.book.budget j :=
        due_le hs hr ho (dueAt_of_release hd) hf.1
      exact hfe
    · obtain ⟨hgo, hfr⟩ := alongM_cons hf hfi
      obtain ⟨ha, ht, hg, -⟩ := releaseProcessor_deal hr hgo hfi
      rw [← hg] at hr
      rw [← ht] at hfr ⊢
      exact ih (ha.solvent hde hs) hr hfr

theorem deregisterFor_afforded
    (hd : T.matchingCompetingDueDelta ≤ 2 * T.matchingCompetingMinInterval) (hs : Solvent T s.book)
    (hg : Releases Affordable s j) : Afforded (deregisterFor s j) := by
  refine avoids_bind.mpr ⟨?_, fun _ _ => avoids_pure _⟩
  refine avoids_bind.mpr ⟨by simp, fun st ht => ?_⟩
  refine avoids_bind.mpr ⟨by simp, fun reg hr => ?_⟩
  rw [okOr_eq_ok] at ht hr
  cases st with
  | opened => simp [finalizeJob_afforded]
  | matched => simp [finalizeJob_afforded]
  | assigned count =>
    refine avoids_bind.mpr ⟨now_afforded _, fun now hn => ?_⟩
    obtain rfl := now_eq_ok hn
    refine avoids_bind.mpr ⟨?_, fun _ _ => by simp [finalizeJob_afforded]⟩
    exact releaseProcessors_afforded (s := { s with jobKeyIds := s.jobKeyIds.erase j }) hd hs
      hr (hg (by rw [ht]; rfl) reg hr)

theorem dispatchSigned_afforded {call : Call A}
    (hd : T.matchingCompetingDueDelta ≤ 2 * T.matchingCompetingMinInterval) (hs : Solvent T s.book)
    (hg : Offers Affordable s (.dispatch (.signed p) call)) : Afforded (dispatchSigned s p call) := by
  cases call with
  | register reg minMetrics => exact registerFor_afforded _ _ reg minMetrics
  | deregister sequence => exact deregisterFor_afforded hd hs hg
  | updateAllowedSources sequence updates => exact updateAllowedSources_afforded s p sequence updates
  | setEnvironments sequence environments => exact setEnvironmentFor_afforded s _ environments
  | advertise advertisement => simp [dispatchSigned, doAdvertise]
  | deleteAdvertisement => simp [dispatchSigned, Marketplace.deleteAdvertisement]
  | proposeMatching matching => exact avoids_foldlM (matchJob_afforded (some p)) matching s
  | proposeExecutionMatching matching => exact avoids_foldlM (matchExecution_afforded (some p)) matching s
  | acknowledgeMatch jobId pubKeys => exact processAcknowledgeMatch_afforded hs p jobId .all pubKeys
  | acknowledgeExecutionMatch jobId executionIndex pubKeys =>
    exact processAcknowledgeMatch_afforded hs p jobId (.index executionIndex) pubKeys
  | report jobId => exact doReport_afforded hs jobId p
  | finalizeJob jobId => simp [dispatchSigned, doCleanupAssignments]
  | cleanupStorage jobId maxIterations => simp [dispatchSigned]
  | cleanupAssignments jobIds => simp [dispatchSigned, doCleanupAssignments]
  | cleanupAssignmentsFor processor jobIds => simp [dispatchSigned, doCleanupAssignments]
  | cleanupJobAssignments jobId => simp [dispatchSigned, Marketplace.cleanupJobAssignments]
  | cleanupJobMatcher jobId => simp [dispatchSigned, Marketplace.cleanupJobMatcher]
  | deploy reg mutability reuseKeysFrom minMetrics =>
    exact avoids_bind.mpr ⟨prepareDeployment_afforded s p _ mutability reuseKeysFrom,
      fun _ _ => registerFor_afforded _ _ reg minMetrics⟩
  | editScript jobId script => simp [dispatchSigned, Marketplace.editScript, transferKeyId]
  | transferEditor jobId newEditor => simp [dispatchSigned, Marketplace.transferEditor]
  | updatePriceSettings settings => simp [dispatchSigned]

theorem perform_afforded (hd : T.matchingCompetingDueDelta ≤ 2 * T.matchingCompetingMinInterval)
    (hs : Solvent T s.book) (hg : Offers Affordable s op) : Afforded (perform s op) := by
  cases op with
  | dispatch o call =>
    show Afforded (dispatch s o call)
    unfold dispatch
    split
    · simp
    · simp
    · cases o with
      | root => simp
      | signed who => exact dispatchSigned_afforded hd hs hg
  | execute act =>
    cases act with
    | registerJob hj reg => exact registerFor_afforded s hj reg none
    | deregisterJob hj => exact deregisterFor_afforded hd hs hg
    | setJobEnvironment hj envs => exact setEnvironmentFor_afforded s hj envs
  | timestamp now => exact avoids_pure _
  | outside w => exact avoids_pure _

def acceptable : Result (State T) → Bool
  | .ok _ => true
  | .error e => e = .unreserveFailed

abbrev Pledged (s : State T) (op : Op T) : Prop := acceptable (perform s op) = true → Offers Affordable s op

theorem Pledged.agreed (h : Pledged s op) : Agreed Affordable s op := by
  intro ho
  obtain ⟨s', hp⟩ := isOk_iff.mp ho
  apply h
  rw [hp]
  rfl

theorem genesis_solvent (w : T.World) : Solvent T (State.genesis T w).book := by
  refine ⟨genesis_orderly w, ?_, fun j _ => le_rfl⟩
  rintro j reg ⟨⟩

theorem Solvent.paid_le {b : Book A} (hb : Solvent T b) (j : JobId A) :
    paidSince b.history j ≤ promised b.history j := by
  cases hf : b.registrations.lookup j with
  | none => exact hb.settled j hf
  | some reg =>
    obtain ⟨⟨hw, hp, -⟩, -⟩ := hb.covered j reg hf
    omega

/-- In every run whose matches and releases are affordable, no call fails for want of budget, and no job
costs more than the reward for all its executions in all its slots. -/
theorem budget_suffices (T : Config A)
    (hdelta : T.matchingCompetingDueDelta ≤ 2 * T.matchingCompetingMinInterval) (world : T.World)
    (ops : List (Op T)) (op : Op T) (hrun : Along step Pledged (State.genesis T world) ops)
    (hop : Pledged (reached world ops) op) :
    perform (reached world ops) op ≠ .error .unreserveFailed ∧
      ∀ j, paidSince (step (reached world ops) op).history j ≤
        promised (step (reached world ops) op).history j := by
  have hd : ∀ b b', Deal T Affordable b b' → Solvent T b → Solvent T b' :=
    fun b b' h hb => h.solvent hdelta hb
  have hs : Solvent T (reached world ops).book :=
    run_deals hd (hrun.imp fun _ _ h => h.agreed) (genesis_solvent world)
  have hs' : Solvent T (step (reached world ops) op).book :=
    Deals.invariant hd (step_deals hop.agreed) hs
  refine ⟨fun hr => ?_, hs'.paid_le⟩
  have ho : Offers Affordable (reached world ops) op := by
    apply hop
    rw [hr]
    rfl
  exact perform_afforded hdelta hs ho hr

def reportedOnce : List (Op mock) :=
  [signed 1 (.register (plainJob atThousand (.single none) 10) none), advertised 2, proposed 1 2 0,
    signed 2 (.acknowledgeMatch (mockJob 1) []), .timestamp 1000]

theorem budget_suffices_of_reportedOnce :
    paidSince (step (after reportedOnce) (signed 2 (.report (mockJob 1)))).history (mockJob 1) = 5 ∧
      perform (after reportedOnce) (signed 2 (.report (mockJob 1))) ≠ .error .unreserveFailed ∧
      ∀ j, paidSince (step (after reportedOnce) (signed 2 (.report (mockJob 1)))).history j ≤
        promised (step (after reportedOnce) (signed 2 (.report (mockJob 1)))).history j :=
  ⟨by decide +kernel, budget_suffices mock (by decide) (1 : ℕ) reportedOnce
    (signed 2 (.report (mockJob 1))) (by decide +kernel) (by decide +kernel)⟩

/-- The one execution of a job with one slot is matched twice, as part of the whole job and on its own. -/
def reportedTwice : List (Op mock) :=
  [signed 1 (.register (plainJob atThousand (.single none) 5) none), advertised 2, advertised 3,
    proposed 1 2 0, signed 2 (.acknowledgeMatch (mockJob 1) []),
    proposedExecution 1 0 3 0, signed 3 (.acknowledgeExecutionMatch (mockJob 1) 0 []),
    .timestamp 1000, signed 2 (.report (mockJob 1))]

theorem budget_exhausted_of_reportedTwice :
    perform (after reportedTwice) (signed 3 (.report (mockJob 1))) = .error .unreserveFailed := by
  have ha : acceptable (perform (after reportedTwice) (signed 3 (.report (mockJob 1)))) = true ∧
      (perform (after reportedTwice) (signed 3 (.report (mockJob 1)))).isOk = false := by
    decide +kernel
  cases hp : perform (after reportedTwice) (signed 3 (.report (mockJob 1))) with
  | ok s =>
    rw [hp] at ha
    cases ha.2
  | error e =>
    rw [hp] at ha
    rw [of_decide_eq_true ha.1]

end Acurast.Marketplace
