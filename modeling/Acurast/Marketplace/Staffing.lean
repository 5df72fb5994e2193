import Acurast.Marketplace.StepDeals

/-! What the matching and the cleanup of assignments leave alone. None of them acknowledges an
assignment. -/

namespace Acurast.Marketplace

open Base

structure Office {A : Type} (T : Config A) where
  world : T.World
  registrations : StorageMap (JobId A) (JobRegistration A)
  reports : StorageMap (JobId A × A) ℕ
  budgets : StorageMap (JobId A) ℕ
  editors : StorageMap (JobId A) A
  jobKeyIds : StorageMap (JobId A) KeyId
  deploymentHashes : StorageMap (JobId A) DeploymentHash
  deploymentKeyIds : StorageMap DeploymentHash KeyId

variable {A : Type} {T : Config A}

def State.office (s : State T) : Office T where
  world := s.world
  registrations := s.storedJobRegistration
  reports := s.nextReportIndex
  budgets := s.jobBudgets
  editors := s.editors
  jobKeyIds := s.jobKeyIds
  deploymentHashes := s.deploymentHashes
  deploymentKeyIds := s.deploymentKeyIds

variable [DecidableEq A] {matcher : Option A} {s s' s₁ s₂ : State T} {p : A} {j : JobId A}
  {reg : JobRegistration A}

/-- Assignments come, none of them acknowledged, and go; the matcher of a job is the one given or was so
before. -/
structure Staffs (matcher : Option A) (s s' : State T) : Prop where
  office : s'.office = s.office
  matchers : ∀ j m, s'.jobMatcher.lookup j = some m → s.jobMatcher.lookup j = some m ∨ matcher = some m
  acknowledged : ∀ k a, s'.storedMatches.lookup k = some a → a.acknowledged = true →
    s.storedMatches.lookup k = some a

namespace Staffs

theorem refl (s : State T) : Staffs matcher s s := ⟨rfl, fun _ _ => .inl, fun _ _ h _ => h⟩

theorem trans (h : Staffs matcher s s₁) (h' : Staffs matcher s₁ s₂) : Staffs matcher s s₂ :=
  ⟨h'.office.trans h.office, fun j m hm => (h'.matchers j m hm).elim (h.matchers j m) .inr,
    fun k a ha hc => h.acknowledged k a (h'.acknowledged k a ha hc) hc⟩

theorem of_office (ho : s'.office = s.office) (hma : s'.jobMatcher = s.jobMatcher)
    (ht : s'.storedMatches = s.storedMatches) : Staffs matcher s s' :=
  ⟨ho, fun _ _ hm => .inl (hma ▸ hm), fun _ _ ha _ => ht ▸ ha⟩

theorem assign (s : State T) (p : A) (j : JobId A) {a : Assignment} (ha : a.acknowledged = false) :
    Staffs matcher s (s.assign p j a) := by
  refine ⟨rfl, fun _ _ => .inl, fun k a' ha' hc => ?_⟩
  simp only [State.assign, lookup_insert_eq] at ha'
  split_ifs at ha'
  · rw [← Option.some.inj ha', ha] at hc
    cases hc
  · exact ha'

theorem unassign (s : State T) (p : A) (j : JobId A) : Staffs matcher s (s.unassign p j) := by
  refine ⟨rfl, fun _ _ => .inl, fun k a ha _ => ?_⟩
  exact (of_lookup_erase ha).2

theorem setMatcher (s : State T) (j : JobId A) (m : A) :
    Staffs (some m) s { s with jobMatcher := s.jobMatcher.insert j m } := by
  refine ⟨rfl, fun j' m' hm => ?_, fun _ _ h _ => h⟩
  simp only [lookup_insert_eq] at hm
  split_ifs at hm
  · exact .inr hm
  · exact .inl hm

end Staffs

omit [DecidableEq A] in
theorem updateAverageReward_staffs [DecidableEq A] {fee : ℕ} (h : updateAverageReward s fee = .ok s') :
    Staffs matcher s s' := by
  simp only [updateAverageReward, ok_iff] at h
  obtain ⟨_, -, _, -, _, -, rfl⟩ := h
  exact .of_office rfl rfl rfl

variable {entry : PlannedExecution A × ℕ}

theorem assignSource_staffs {acc acc' : State T × ℕ × ℕ}
    (h : assignSource j reg matcher acc entry = .ok acc') :
    Staffs matcher acc.1 acc'.1 := by
  simp only [assignSource, ok_iff] at h
  obtain ⟨fee, -, _, -, _, -, _, -, ⟨⟩, -, rfl⟩ := h
  cases matcher with
  | none => exact .assign acc.1 _ _ rfl
  | some m => exact (Staffs.assign acc.1 _ _ rfl).trans (.setMatcher _ _ m)

theorem matchJob_staffs {m : Match A} (h : matchJob matcher s m = .ok s') : Staffs matcher s s' := by
  simp only [matchJob, ok_iff] at h
  obtain ⟨st, -, h⟩ := h
  split_ifs at h
  · cases h
    exact .refl s
  · simp only [bind_eq_ok] at h
    obtain ⟨reg, -, _, -, ⟨⟩, -, ⟨⟩, -, ⟨s₁, total⟩, has, h⟩ := h
    have hs : Staffs matcher s s₁ := by
      refine foldlM_invariant (P := fun acc : State T × ℕ × ℕ => Staffs matcher s acc.1) ?_ has (.refl s)
      exact fun acc entry acc' ht ha => ha.trans (assignSource_staffs ht)
    split_ifs at h
    · simp only [ok_iff] at h
      obtain ⟨s₂, hv, rfl⟩ := h
      exact (hs.trans (updateAverageReward_staffs hv)).trans (.of_office rfl rfl rfl)
    · cases h
      exact hs.trans (.of_office rfl rfl rfl)

theorem processMatching_staffs {ms : List (Match A)}
    (h : processMatching s ms matcher = .ok s') : Staffs matcher s s' := by
  refine foldlM_invariant (P := fun s' : State T => Staffs matcher s s') ?_ h (.refl s)
  exact fun s₁ m s₂ ht hs => hs.trans (matchJob_staffs ht)

theorem cleanupProcessor_staffs (j : JobId A) (n : ℕ) (s : State T) (p : A) :
    Staffs matcher s (cleanupProcessor j n s p) := by
  unfold cleanupProcessor
  split
  · split
    · split_ifs
      · exact .unassign s p j
      · exact .refl s
    · exact .refl s
  · exact .of_office rfl rfl rfl

theorem cleanupPrevious_staffs (s : State T) (j : JobId A) (i : ℕ) :
    Staffs matcher s (cleanupPreviousExecutionMatches s j i) := by
  have ha : ∀ (l : List A) (s : State T) (n : ℕ),
      Staffs matcher s (l.foldl (cleanupProcessor j n) s) := by
    intro l s n
    induction l generalizing s with
    | nil => exact .refl s
    | cons p l ih => exact (cleanupProcessor_staffs j n s p).trans (ih _)
  unfold cleanupPreviousExecutionMatches
  split_ifs
  · exact .refl s
  · have her : Staffs matcher s { s with
        storedJobExecutionStatus := s.storedJobExecutionStatus.erase (j, i - 2) } := .of_office rfl rfl rfl
    exact her.trans (ha _ _ _)

theorem assignExecutionSource_staffs {i : ℕ} {acc acc' : State T × ℕ}
    (h : assignExecutionSource j reg i acc entry = .ok acc') :
    Staffs matcher acc.1 acc'.1 := by
  simp only [assignExecutionSource, ok_iff] at h
  obtain ⟨fee, -, _, -, ⟨⟩, -, rfl⟩ := h
  exact .assign acc.1 _ _ rfl

theorem matchExecution_staffs {m : ExecutionMatch A} (h : matchExecution matcher s m = .ok s') :
    Staffs matcher s s' := by
  unfold matchExecution at h
  split_ifs at h
  · cases h
    exact .refl s
  · simp only [bind_eq_ok] at h
    obtain ⟨reg, -, _, -, _, -, ⟨⟩, -, ⟨⟩, -, ⟨⟩, -, ⟨s₁, total⟩, has, h⟩ := h
    have ho : Staffs matcher s s₁ := by
      refine foldlM_invariant (P := fun acc : State T × ℕ => Staffs matcher s acc.1) ?_ has
        (cleanupPrevious_staffs s _ _)
      exact fun acc entry acc' ht ha => ha.trans (assignExecutionSource_staffs ht)
    have hs : ∀ s₂ : State T, Staffs matcher s₂ { s₂ with
        storedJobStatus := s₂.storedJobStatus.insert m.jobId .matched
        storedJobExecutionStatus :=
          (s₂.storedJobExecutionStatus.insert (m.jobId, m.executionIndex) .matched) } :=
      fun _ => .of_office rfl rfl rfl
    split_ifs at h
    · simp only [ok_iff] at h
      obtain ⟨average, -, s₂, hv, rfl⟩ := h
      refine (ho.trans (updateAverageReward_staffs hv)).trans ?_
      cases matcher with
      | none => exact hs s₂
      | some a => exact (hs s₂).trans (.setMatcher _ _ a)
    · cases h
      refine ho.trans ?_
      cases matcher with
      | none => exact hs s₁
      | some a => exact (hs s₁).trans (.setMatcher _ _ a)

theorem processExecutionMatching_staffs {ms : List (ExecutionMatch A)}
    (h : processExecutionMatching s ms matcher = .ok s') : Staffs matcher s s' := by
  refine foldlM_invariant (P := fun s' : State T => Staffs matcher s s') ?_ h (.refl s)
  exact fun s₁ m s₂ ht hs => hs.trans (matchExecution_staffs ht)

theorem unassignAll_staffs (s : State T) (j : JobId A) (l : List A) :
    Staffs matcher s (s.unassignAll j l) := by
  induction l generalizing s with
  | nil => exact .refl s
  | cons p l ih => exact (Staffs.unassign s p j).trans (ih (s.unassign p j))

theorem doCleanupAssignments_staffs {jobIds : List (JobId A)}
    (h : doCleanupAssignments s p jobIds = .ok s') : Staffs matcher s s' := by
  simp only [doCleanupAssignments, ok_iff] at h
  obtain ⟨now, -, rfl⟩ := h
  induction jobIds generalizing s with
  | nil => exact .refl s
  | cons j jobIds ih =>
    have hf : Staffs matcher s (doCleanupAssignment s p j now) := by
      unfold doCleanupAssignment
      split
      · exact .refl s
      · split
        · exact .unassign s p j
        · split_ifs
          · exact .unassign s p j
          · exact .refl s
    exact hf.trans ih

theorem cleanupStorage_staffs (s : State T) (j : JobId A) (n : ℕ) :
    Staffs matcher s (cleanupStorage s j n) := by
  unfold cleanupStorage
  split_ifs
  · exact unassignAll_staffs s j _
  · exact .refl s

theorem cleanupJobAssignments_staffs (h : cleanupJobAssignments s j = .ok s') : Staffs matcher s s' := by
  simp only [cleanupJobAssignments, ok_iff] at h
  obtain ⟨now, -, rfl⟩ := h
  split_ifs
  · exact unassignAll_staffs s j _
  · exact .refl s

theorem cleanupJobMatcher_staffs (h : cleanupJobMatcher s j = .ok s') : Staffs matcher s s' := by
  simp only [cleanupJobMatcher, ok_iff] at h
  obtain ⟨now, -, rfl⟩ := h
  split_ifs
  · refine ⟨rfl, fun j' m hm => ?_, fun _ _ h _ => h⟩
    exact .inl (of_lookup_erase hm).2
  · exact .refl s

theorem doAdvertise_staffs {ad : AdvertisementRestriction A}
    (h : doAdvertise s p ad = .ok s') : Staffs matcher s s' := by
  simp only [doAdvertise, ok_iff] at h
  obtain ⟨⟨⟩, -, rfl⟩ := h
  exact .of_office rfl rfl rfl

theorem deleteAdvertisement_staffs (h : deleteAdvertisement s p = .ok s') : Staffs matcher s s' := by
  simp only [deleteAdvertisement, ok_iff] at h
  obtain ⟨_, -, ⟨⟩, -, rfl⟩ := h
  exact .of_office rfl rfl rfl

theorem setEnvironmentFor_staffs {envs : List (A × Environment)}
    (h : setEnvironmentFor s j envs = .ok s') : Staffs matcher s s' := by
  refine foldlM_invariant (P := fun s' : State T => Staffs matcher s s') ?_ h (.refl s)
  intro s₁ entry s₂ hs hs₁
  simp only [ok_iff] at hs
  obtain ⟨_, -, rfl⟩ := hs
  exact hs₁.trans (.of_office rfl rfl rfl)

theorem doUpdateReputation_staffs {a : Assignment} {miss : ℕ}
    (h : doUpdateReputation s p a miss = .ok s') : Staffs matcher s s' := by
  unfold doUpdateReputation at h
  split_ifs at h
  · simp only [ok_iff] at h
    obtain ⟨_, -, _, -, rfl⟩ := h
    exact .of_office rfl rfl rfl
  · cases h
    exact .refl s

theorem updateNextReportIndexOnAcknowledge_staffs {a : Assignment} {ex : ExecutionSpecifier}
    (matcher : Option A) (h : updateNextReportIndexOnAcknowledge s j p a ex = .ok s') :
    ∃ s₁ nextReportIndex, Staffs matcher s s₁ ∧ s' = { s₁ with nextReportIndex } := by
  cases ex with
  | all => exact ⟨s, _, .refl s, (pure_eq_ok.mp h).symm⟩
  | index i =>
    unfold updateNextReportIndexOnAcknowledge at h
    dsimp only at h
    split at h
    · exact ⟨s, _, .refl s, (pure_eq_ok.mp h).symm⟩
    · simp only [ok_iff] at h
      obtain ⟨reg, -, now, -, h⟩ := h
      split_ifs at h
      · exact ⟨s, _, .refl s, (pure_eq_ok.mp h).symm⟩
      · simp only [ok_iff] at h
        obtain ⟨s₁, hr, rfl⟩ := h
        exact ⟨s₁, _, doUpdateReputation_staffs hr, rfl⟩

theorem updateJobStatus_staffs {ex : ExecutionSpecifier}
    (h : updateJobStatus s j ex = .ok s') : Staffs matcher s s' := by
  cases ex with
  | all =>
    simp only [updateJobStatus, ok_iff] at h
    obtain ⟨_, -, _, -, rfl⟩ := h
    exact .of_office rfl rfl rfl
  | index i =>
    simp only [updateJobStatus, ok_iff] at h
    obtain ⟨_, -, rfl⟩ := h
    exact .of_office rfl rfl rfl

theorem admitJob_staffs (h : admitJob s j reg = .ok s') : Staffs matcher s s' := by
  simp only [admitJob, bind_eq_ok] at h
  obtain ⟨⟨⟩, -, h⟩ := h
  unfold openJob at h
  split at h
  · simp only [ok_iff] at h
    obtain ⟨⟨⟩, -, rfl⟩ := h
    exact .refl s
  · cases h
    exact .of_office rfl rfl rfl

theorem matchInstantly_staffs (h : matchInstantly s j reg = .ok s') : Staffs none s s' := by
  unfold matchInstantly at h
  split at h
  · rcases whenSome_eq_ok.mp h with ⟨-, rfl⟩ | ⟨sources, rfl, h⟩
    · exact .refl s
    · exact processMatching_staffs h
  · simp only [ok_iff] at h
    obtain ⟨⟨⟩, -, rfl⟩ := h
    exact .refl s

end Acurast.Marketplace
