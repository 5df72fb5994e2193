import Acurast.Marketplace.Mock
import Acurast.Marketplace.Staffing

/-! What the pallet account holds beyond its balance at genesis is the sum of all budgets: every payment
takes as much from the one as from the other. -/

namespace Acurast.Marketplace

open Base

variable {A : Type} {T : Config A}

/-- What is assumed of the currency: transfers and withdrawals move exactly their amount. What else the
pallet calls outside leaves its account alone. -/
structure Fungible (T : Config A) (balance : T.World → A → ℕ) : Prop where
  transfer : ∀ w sender recipient n w', sender ≠ recipient →
    T.transfer w sender recipient n = some w' →
      balance w' sender + n = balance w sender ∧ balance w' recipient = balance w recipient + n
  withdraw : ∀ w who n w' credit, T.withdraw w who n = some (w', credit) →
    balance w' who + n = balance w who
  onUnbalanced : ∀ w n, balance (T.onUnbalanced w n) T.palletAccount = balance w T.palletAccount
  assignJob : ∀ w j pubKeys w', T.assignJob w j pubKeys = some w' →
    balance w' T.palletAccount = balance w T.palletAccount
  finalizeJob : ∀ w j n w', T.finalizeJob w j n = some w' →
    balance w' T.palletAccount = balance w T.palletAccount

structure SeparateAccounts (T : Config A) : Prop where
  hyperdrive : T.hyperdrivePalletAccount ≠ T.palletAccount
  fee : T.feePalletAccount ≠ T.palletAccount

def State.reserved (s : State T) : ℕ := StorageMap.sum s.jobBudgets fun _ n => n

theorem transferPositive_balance (hl : Fungible T bal) (hp : p ≠ T.palletAccount)
    (h : transferPositive s p n = .ok s') :
    bal s'.world T.palletAccount + n = bal s.world T.palletAccount ∧
      s'.reserved = s.reserved ∧ s'.jobMatcher = s.jobMatcher := by
  unfold transferPositive at h
  split_ifs at h with ho
  · simp only [ok_iff] at h
    obtain ⟨world, ht, rfl⟩ := h
    exact ⟨(hl.transfer _ _ _ _ _ hp.symm ht).1, rfl, rfl⟩
  · cases h
    obtain rfl : n = 0 := Nat.eq_zero_of_not_pos ho
    exact ⟨rfl, rfl, rfl⟩

theorem fundingAccount_ne (ha : SeparateAccounts T) (hj : j.1 ≠ .acurast T.palletAccount)
    (h : fundingAccount T j = .ok p) : p ≠ T.palletAccount := by
  unfold fundingAccount at h
  split at h
  · next owner ho =>
    rw [← pure_eq_ok.mp h]
    rintro rfl
    exact hj ho
  all_goals first
    | exact pure_eq_ok.mp h ▸ ha.hyperdrive
    | cases h

variable [DecidableEq A] {balance bal : T.World → A → ℕ} {who : Option A} {s s' s₁ s₂ : State T} {p : A}
  {j : JobId A} {reg : JobRegistration A} {n : ℕ}

/-- The pallet account and the budgets go up and down together; the matcher of a job is the one given or
was so before. -/
structure Squares (balance : T.World → A → ℕ) (who : Option A) (s s' : State T) : Prop where
  settles : balance s'.world T.palletAccount + s.reserved = balance s.world T.palletAccount + s'.reserved
  matchers : ∀ j m, s'.jobMatcher.lookup j = some m → s.jobMatcher.lookup j = some m ∨ who = some m

namespace Squares

theorem trans (h : Squares bal who s s₁) (h' : Squares bal who s₁ s₂) :
    Squares bal who s s₂ := by
  refine ⟨?_, fun j m hm => (h'.matchers j m hm).elim (h.matchers j m) .inr⟩
  have hf := h.settles
  have hs := h'.settles
  omega

theorem of_eq (hw : s'.world = s.world) (hb : s'.jobBudgets = s.jobBudgets)
    (ha : s'.jobMatcher = s.jobMatcher) : Squares bal who s s' := by
  refine ⟨?_, fun j m hm => .inl (ha ▸ hm)⟩
  unfold State.reserved
  rw [hw, hb]

theorem refl (s : State T) : Squares bal who s s := .of_eq rfl rfl rfl

end Squares

theorem Staffs.squares (h : Staffs who s s') : Squares bal who s s' := by
  refine ⟨?_, h.matchers⟩
  have hw : s'.world = s.world := congrArg Office.world h.office
  have hb : s'.jobBudgets = s.jobBudgets := congrArg Office.budgets h.office
  unfold State.reserved
  rw [hw, hb]

theorem reserved_insert (m : StorageMap (JobId A) ℕ) (j : JobId A) (n : ℕ) :
    StorageMap.sum (m.insert j n) (fun _ n => n) + StorageMap.getD m j 0 =
      StorageMap.sum m (fun _ n => n) + n := by
  have hs := StorageMap.sum_insert m (fun _ n => n) j n
  unfold StorageMap.getD
  cases hf : m.lookup j with
  | none =>
    rw [hf] at hs
    exact hs
  | some old =>
    rw [hf] at hs
    exact hs

theorem unreserve_reserved (h : unreserve s j n = .ok s') :
    s'.reserved + n = s.reserved ∧ s'.world = s.world ∧ s'.jobMatcher = s.jobMatcher := by
  simp only [unreserve, ok_iff] at h
  obtain ⟨⟨⟩, hc, rfl⟩ := h
  refine ⟨?_, rfl, rfl⟩
  have hs := reserved_insert s.jobBudgets j (s.budget j - n)
  have hb : StorageMap.getD s.jobBudgets j 0 = s.budget j := rfl
  show StorageMap.sum (s.jobBudgets.insert j (s.budget j - n)) (fun _ n => n) + n = s.reserved
  unfold State.reserved
  omega

theorem handleReward_squares (hl : Fungible T bal) (h : handleReward s j n = .ok s') :
    Squares bal who s s' := by
  simp only [handleReward, ok_iff, Prod.exists] at h
  obtain ⟨s₁, hu, world, credit, hw, rfl⟩ := h
  obtain ⟨hr, ho, ha⟩ := unreserve_reserved hu
  refine ⟨?_, fun j m hm => .inl (ha ▸ hm)⟩
  have hb := hl.withdraw _ _ _ _ _ hw
  rw [ho] at hb
  show bal (T.onUnbalanced world credit) T.palletAccount + s.reserved =
    bal s.world T.palletAccount + s₁.reserved
  rw [hl.onUnbalanced]
  omega

theorem payMatcherReward_squares (hl : Fungible T bal) (ha : SeparateAccounts T)
    (hp : p ≠ T.palletAccount) (h : payMatcherReward s j n p = .ok s') : Squares bal who s s' := by
  simp only [payMatcherReward, bind_eq_ok] at h
  obtain ⟨s₁, hu, s₂, hf, hr⟩ := h
  obtain ⟨hs, hw, hma⟩ := unreserve_reserved hu
  obtain ⟨hb₁, hr₁, hm₁⟩ := transferPositive_balance hl ha.fee hf
  obtain ⟨hb₂, hr₂, hm₂⟩ := transferPositive_balance hl hp hr
  -- the fee is taken out of what the matcher gets
  have hle := T.feePercentage.mulFloor_le (T.matcherPercentage.mulFloor n)
  refine ⟨?_, fun j m hm => .inl ?_⟩
  · rw [hw] at hb₁
    omega
  · rwa [hm₂, hm₁, hma] at hm

theorem lockReward_squares (hl : Fungible T bal) (ha : SeparateAccounts T)
    (hj : j.1 ≠ .acurast T.palletAccount) (h : lockReward s j n = .ok s') : Squares bal who s s' := by
  simp only [lockReward, reserve, ok_iff, checkedAdd_eq_some] at h
  obtain ⟨a, hf, world, ht, x, ⟨rfl, -⟩, rfl⟩ := h
  refine ⟨?_, fun _ _ => .inl⟩
  have hb := (hl.transfer _ _ _ _ _ (fundingAccount_ne ha hj hf) ht).2
  have hs := reserved_insert s.jobBudgets j (s.budget j + n)
  have hu : StorageMap.getD s.jobBudgets j 0 = s.budget j := rfl
  show bal world T.palletAccount + s.reserved = bal s.world T.palletAccount +
    StorageMap.sum (s.jobBudgets.insert j (s.budget j + n)) (fun _ n => n)
  unfold State.reserved
  omega

theorem finalizeJob_squares (hl : Fungible T bal) (ha : SeparateAccounts T)
    (hj : j.1 ≠ .acurast T.palletAccount) (h : finalizeJob s j = .ok s') : Squares bal who s s' := by
  simp only [finalizeJob, refund, unreserveRemaining, ok_iff, Prod.exists, Prod.mk.injEq] at h
  obtain ⟨s₁, remaining, ⟨a, hf, world, ht, rfl, rfl⟩, world', hh, rfl⟩ := h
  refine ⟨?_, fun _ _ => .inl⟩
  have hb := (hl.transfer _ _ _ _ _ (fundingAccount_ne ha hj hf).symm ht).1
  have hs := reserved_insert s.jobBudgets j 0
  have hu : StorageMap.getD s.jobBudgets j 0 = s.budget j := rfl
  show bal world' T.palletAccount + s.reserved = bal s.world T.palletAccount +
    StorageMap.sum (s.jobBudgets.insert j 0) (fun _ n => n)
  have hk := hl.finalizeJob _ _ _ _ hh
  have hk' : bal world' T.palletAccount = bal world T.palletAccount := hk
  unfold State.reserved
  omega

variable {ex : ExecutionSpecifier} {script : Script} {op : Op T} {w w' : ℕ → ℕ}

theorem updateNextReportIndexOnAcknowledge_squares {a : Assignment}
    (h : updateNextReportIndexOnAcknowledge s j p a ex = .ok s') :
    Squares bal who s s' := by
  obtain ⟨s₁, _, hs, rfl⟩ := updateNextReportIndexOnAcknowledge_staffs who h
  exact hs.squares.trans (.of_eq rfl rfl rfl)

theorem processAcknowledgeMatch_squares {keys : List PubKey} (hl : Fungible T bal)
    (hc : SeparateAccounts T)
    (ht : ∀ j m, s.jobMatcher.lookup j = some m → m ≠ T.palletAccount)
    (h : processAcknowledgeMatch s p j ex keys = .ok s') : Squares bal none s s' := by
  simp only [processAcknowledgeMatch, ok_iff, Prod.exists] at h
  obtain ⟨reg, hg, s₁, changed, a', hu, h⟩ := h
  obtain ⟨a, -, -, -, -, -, rfl⟩ := updateAssignmentToAcknowledged_ok hu
  have has : Squares bal none s
      { s with storedMatches := s.storedMatches.insert (p, j) a' } := .of_eq rfl rfl rfl
  split_ifs at h
  · simp only [ok_iff] at h
    obtain ⟨s₂, hst, s₃, hr, world, hh, hp⟩ := h
    have ha : Squares bal none s s₃ :=
      (has.trans (updateJobStatus_staffs hst).squares).trans
        (updateNextReportIndexOnAcknowledge_squares hr)
    have hs : Squares bal none s { s₃ with world } := by
      refine ⟨?_, ha.matchers⟩
      have hse := ha.settles
      rw [← hl.assignJob _ _ _ _ hh] at hse
      exact hse
    cases hm : s₃.jobMatcher.lookup j with
    | none =>
      rw [hm] at hp
      cases hp
      exact hs
    | some matcher =>
      rw [hm] at hp
      have hb : s.jobMatcher.lookup j = some matcher :=
        (ha.matchers j matcher hm).resolve_right fun hn => by cases hn
      exact hs.trans (payMatcherReward_squares hl hc (ht j matcher hb) hp)
  · cases h
    exact has

theorem doReport_squares (hl : Fungible T bal) (h : doReport s j p = .ok s') :
    Squares bal who s s' := by
  simp only [doReport, ok_iff, Prod.exists] at h
  obtain ⟨s₁, a', hu, reg, hg, s₂, miss, v, hn, s₃, hr, s₄, hre, rfl⟩ := h
  obtain ⟨a, -, -, -, rfl, rfl⟩ := updateAssignment_ok hu
  obtain ⟨exp, rep, -, -, rfl, rfl⟩ := updateNextReportIndexOnReport_ok hn
  refine Squares.trans (Squares.trans ?_ (handleReward_squares hl hr)) ?_
  · exact .of_eq rfl rfl rfl
  · refine (doUpdateReputation_staffs hre).squares.trans ?_
    split_ifs
    · exact .of_eq rfl rfl rfl
    · exact .refl s₄

theorem registerFor_squares {mins : Option (List (PoolId × ℕ × ℕ))} (hl : Fungible T bal)
    (ha : SeparateAccounts T) (hj : j.1 ≠ .acurast T.palletAccount)
    (h : registerFor s j reg mins = .ok s') : Squares bal none s s' := by
  simp only [registerFor, registerHook, bind_eq_ok] at h
  obtain ⟨s₁, hs, s₂, hd, s₃, hm, r, -, ho⟩ := h
  have ht : Squares bal none s s₁ := by
    simp only [storeRegistration, bind_eq_ok] at hs
    obtain ⟨⟨⟩, -, ⟨⟩, -, hs⟩ := hs
    rcases whenSome_eq_ok.mp hs with ⟨-, rfl⟩ | ⟨ms, -, hs⟩
    · exact .of_eq rfl rfl rfl
    · simp only [ok_iff] at hs
      obtain ⟨⟨⟩, -, rfl⟩ := hs
      exact .of_eq rfl rfl rfl
  have hma : Squares bal none s s₃ :=
    (ht.trans (admitJob_staffs hd).squares).trans (matchInstantly_staffs hm).squares
  exact hma.trans (lockReward_squares hl ha hj ho)

theorem releaseProcessor_squares {now : ℕ} (hl : Fungible T bal)
    (h : releaseProcessor j reg now s p = .ok s') : Squares bal who s s' := by
  have hu : Squares bal who s (s.unassign p j) := .of_eq rfl rfl rfl
  simp only [releaseProcessor] at h
  rcases whenSome_eq_ok.mp h with ⟨-, rfl⟩ | ⟨a, -, h⟩
  · exact hu
  · split_ifs at h
    · exact hu.trans (handleReward_squares hl h)
    · cases h
      exact hu

theorem deregisterHook_squares (hl : Fungible T bal) (ha : SeparateAccounts T)
    (hj : j.1 ≠ .acurast T.palletAccount) (h : deregisterHook s j = .ok s') :
    Squares bal who s s' := by
  simp only [deregisterHook, ok_iff] at h
  obtain ⟨st, -, reg, -, h⟩ := h
  have hk : Squares bal who s { s with jobKeyIds := s.jobKeyIds.erase j } := .of_eq rfl rfl rfl
  cases st with
  | opened =>
    simp only [ok_iff] at h
    obtain ⟨s₂, hf, rfl⟩ := h
    exact (hk.trans (finalizeJob_squares hl ha hj hf)).trans (.of_eq rfl rfl rfl)
  | matched =>
    simp only [ok_iff] at h
    obtain ⟨s₂, hf, rfl⟩ := h
    refine (hk.trans (finalizeJob_squares hl ha hj hf)).trans ?_
    exact (unassignAll_staffs s₂ j _).squares.trans (.of_eq rfl rfl rfl)
  | assigned count =>
    simp only [ok_iff] at h
    obtain ⟨now, -, s₂, hr, s₃, hf, rfl⟩ := h
    have hre : Squares bal who s s₂ := by
      refine foldlM_invariant (P := fun s' : State T => Squares bal who s s') ?_ hr hk
      exact fun s₁ p s₂ ht hs => hs.trans (releaseProcessor_squares hl ht)
    refine (hre.trans (finalizeJob_squares hl ha hj hf)).trans ?_
    refine ⟨rfl, fun j' m hm => ?_⟩
    exact .inl (of_lookup_erase hm).2

theorem deregisterFor_squares (hl : Fungible T bal) (ha : SeparateAccounts T)
    (hj : j.1 ≠ .acurast T.palletAccount) (h : deregisterFor s j = .ok s') : Squares bal who s s' := by
  simp only [deregisterFor, ok_iff] at h
  obtain ⟨s₁, hh, rfl⟩ := h
  exact (deregisterHook_squares hl ha hj hh).trans (.of_eq rfl rfl rfl)

theorem prepareDeployment_squares {mutability : ScriptMutability A}
    {reuseKeysFrom : Option (JobId A)}
    (h : prepareDeployment s p script mutability reuseKeysFrom = .ok (s', j)) :
    Squares bal who s s' ∧ j.1 = .acurast p := by
  simp only [prepareDeployment, nextJobId, ok_iff, Prod.mk.injEq] at h
  obtain ⟨s₁, hk, rfl, rfl⟩ := h
  refine ⟨?_, rfl⟩
  cases mutability with
  | immutable =>
    simp only [deployKeys, ok_iff] at hk
    obtain ⟨⟨⟩, -, rfl⟩ := hk
    exact .of_eq rfl rfl rfl
  | mutable editor =>
    simp only [deployKeys, ok_iff, Prod.exists] at hk
    obtain ⟨s₂, _, _, hd, rfl⟩ := hk
    cases reuseKeysFrom with
    | none =>
      obtain ⟨rfl, -⟩ := Prod.mk.inj (pure_eq_ok.mp hd)
      exact .of_eq rfl rfl rfl
    | some original =>
      simp only [deriveKeyId, transferKeyId, ok_iff, Prod.exists, Prod.mk.injEq] at hd
      obtain ⟨⟨⟩, -, _, -, _, -, _, -, ⟨⟩, -, _, _, ⟨_, -, rfl, -⟩, rfl, -⟩ := hd
      exact .of_eq rfl rfl rfl

theorem updateAllowedSources_squares {seq : ℕ} {ups : List (ListUpdateOperation × A)}
    (h : updateAllowedSources s p seq ups = .ok s') : Squares bal who s s' := by
  obtain ⟨reg, sources, -, -, rfl⟩ := updateAllowedSources_ok h
  exact .of_eq rfl rfl rfl

theorem editScript_squares (h : editScript s p j script = .ok s') : Squares bal who s s' := by
  simp only [editScript, transferKeyId, ok_iff, Prod.exists, Prod.mk.injEq] at h
  obtain ⟨ed, -, ⟨⟩, -, ⟨⟩, -, reg, -, s₁, _, ⟨_, -, rfl, -⟩, rfl⟩ := h
  exact .of_eq rfl rfl rfl

theorem transferEditor_squares {ed : Option A} (h : transferEditor s p j ed = .ok s') :
    Squares bal who s s' := by
  simp only [transferEditor, ok_iff] at h
  obtain ⟨_, -, ⟨⟩, -, rfl⟩ := h
  exact .of_eq rfl rfl rfl

theorem Squares.weaken (h : Squares bal none s s') : Squares bal who s s' :=
  ⟨h.settles, fun j m hm => .inl ((h.matchers j m hm).resolve_right nofun)⟩

theorem dispatchSigned_squares {call : Call A} (hl : Fungible T bal)
    (ha : SeparateAccounts T) (hp : p ≠ T.palletAccount)
    (hm : ∀ j m, s.jobMatcher.lookup j = some m → m ≠ T.palletAccount)
    (h : dispatchSigned s p call = .ok s') : Squares bal (some p) s s' := by
  have ho : ∀ n : ℕ, ((.acurast p, n) : JobId A).1 ≠ .acurast T.palletAccount :=
    fun _ hq => hp (MultiOrigin.acurast.inj hq)
  cases call with
  | register reg minMetrics =>
    have hn : Squares bal (some p) s (nextJobId s).1 := .of_eq rfl rfl rfl
    have hr : Squares bal none (nextJobId s).1 s' :=
      registerFor_squares hl ha (ho _) h
    exact hn.trans hr.weaken
  | deregister sequence => exact deregisterFor_squares hl ha (ho sequence) h
  | updateAllowedSources sequence updates => exact updateAllowedSources_squares h
  | setEnvironments sequence environments => exact (setEnvironmentFor_staffs h).squares
  | advertise advertisement => exact (doAdvertise_staffs h).squares
  | deleteAdvertisement => exact (deleteAdvertisement_staffs h).squares
  | proposeMatching matching => exact (processMatching_staffs h).squares
  | proposeExecutionMatching matching => exact (processExecutionMatching_staffs h).squares
  | acknowledgeMatch jobId pubKeys =>
    exact (processAcknowledgeMatch_squares hl ha hm h).weaken
  | acknowledgeExecutionMatch jobId executionIndex pubKeys =>
    exact (processAcknowledgeMatch_squares hl ha hm h).weaken
  | report jobId => exact doReport_squares hl h
  | finalizeJob jobId => exact (doCleanupAssignments_staffs h).squares
  | cleanupStorage jobId maxIterations => cases h
  | cleanupAssignments jobIds => exact (doCleanupAssignments_staffs h).squares
  | cleanupAssignmentsFor processor jobIds => exact (doCleanupAssignments_staffs h).squares
  | cleanupJobAssignments jobId => exact (cleanupJobAssignments_staffs h).squares
  | cleanupJobMatcher jobId => exact (cleanupJobMatcher_staffs h).squares
  | deploy reg mutability reuseKeysFrom minMetrics =>
    simp only [dispatchSigned, deploy, bind_eq_ok] at h
    obtain ⟨⟨s₁, j⟩, hpre, hr⟩ := h
    obtain ⟨hpr, hj⟩ : Squares bal (some p) s s₁ ∧ j.1 = .acurast p :=
      prepareDeployment_squares hpre
    have hb : j.1 ≠ .acurast T.palletAccount := hj ▸ ho 0
    exact hpr.trans (registerFor_squares hl ha hb hr).weaken
  | editScript jobId script => exact editScript_squares h
  | transferEditor jobId newEditor => exact transferEditor_squares h
  | updatePriceSettings settings => cases h

def Independent (balance : T.World → A → ℕ) (s : State T) : Op T → Prop
  | .dispatch (.signed who) _ => who ≠ T.palletAccount
  | .dispatch .root _ => True
  | .execute (.registerJob j _) => j.1 ≠ .acurast T.palletAccount
  | .execute (.deregisterJob j) => j.1 ≠ .acurast T.palletAccount
  | .execute (.setJobEnvironment _ _) => True
  | .timestamp _ => True
  | .outside world => balance world T.palletAccount = balance s.world T.palletAccount

instance (balance : T.World → A → ℕ) (s : State T) : (op : Op T) → Decidable (Independent balance s op)
  | .dispatch (.signed _) _ => inferInstanceAs (Decidable (_ ≠ _))
  | .dispatch .root _ => inferInstanceAs (Decidable True)
  | .execute (.registerJob _ _) => inferInstanceAs (Decidable (_ ≠ _))
  | .execute (.deregisterJob _) => inferInstanceAs (Decidable (_ ≠ _))
  | .execute (.setJobEnvironment _ _) => inferInstanceAs (Decidable True)
  | .timestamp _ => inferInstanceAs (Decidable True)
  | .outside _ => inferInstanceAs (Decidable (_ = _))

def Op.signer : Op T → Option A
  | .dispatch origin _ => origin.signer
  | .execute _ | .timestamp _ | .outside _ => none

theorem perform_squares (hl : Fungible T bal) (ha : SeparateAccounts T)
    (hm : ∀ j m, s.jobMatcher.lookup j = some m → m ≠ T.palletAccount)
    (hn : Independent bal s op) (h : perform s op = .ok s') :
    Squares bal op.signer s s' := by
  cases op with
  | dispatch o call =>
    have hd : dispatch s o call = .ok s' := h
    unfold dispatch at hd
    split at hd
    · simp only [ok_iff] at hd
      obtain ⟨⟨⟩, -, rfl⟩ := hd
      exact (cleanupStorage_staffs s _ _).squares
    · simp only [ok_iff] at hd
      obtain ⟨⟨⟩, -, rfl⟩ := hd
      exact .of_eq rfl rfl rfl
    · cases o with
      | root => cases hd
      | signed who => exact dispatchSigned_squares hl ha hn hm hd
  | execute act =>
    cases act with
    | registerJob hj reg => exact registerFor_squares hl ha hn h
    | deregisterJob hj => exact deregisterFor_squares hl ha hn h
    | setJobEnvironment hj envs => exact (setEnvironmentFor_staffs h).squares
  | timestamp now =>
    cases h
    exact .of_eq rfl rfl rfl
  | outside world =>
    cases h
    exact ⟨congrArg (· + s.reserved) hn, fun _ _ => .inl⟩

omit [DecidableEq A] in
theorem Independent.signer_ne (h : Independent bal s op) (hs : op.signer = some p) :
    p ≠ T.palletAccount := by
  cases op with
  | dispatch o call =>
    cases o with
    | root => cases hs
    | signed who => exact Option.some.inj hs ▸ h
  | execute act => cases hs
  | timestamp now => cases hs
  | outside world => cases hs

/-- In every run, the pallet account holds its balance at genesis and the budgets of all jobs. -/
theorem escrow_covers_budgets (T : Config A) (balance : T.World → A → ℕ) (hlaws : Fungible T balance)
    (haccounts : SeparateAccounts T) (world : T.World) (ops : List (Op T))
    (hrun : Along step (Independent balance) (State.genesis T world) ops) :
    balance (reached world ops).world T.palletAccount =
      balance world T.palletAccount +
        StorageMap.sum (reached world ops).jobBudgets fun _ n => n := by
  have ht : ∀ (s : State T) (op : Op T), Independent balance s op →
      (balance s.world T.palletAccount = balance world T.palletAccount + s.reserved ∧
        ∀ j m, s.jobMatcher.lookup j = some m → m ≠ T.palletAccount) →
      balance (step s op).world T.palletAccount =
          balance world T.palletAccount + (step s op).reserved ∧
        ∀ j m, (step s op).jobMatcher.lookup j = some m → m ≠ T.palletAccount := by
    intro s op ho hs
    refine transact_induction (P := fun s' : State T => balance s'.world T.palletAccount =
        balance world T.palletAccount + s'.reserved ∧
      ∀ j m, s'.jobMatcher.lookup j = some m → m ≠ T.palletAccount) hs fun s' hs' => ?_
    obtain ⟨hse, ha⟩ := perform_squares hlaws haccounts hs.2 ho hs'
    refine ⟨by omega, fun j m hm => ?_⟩
    rcases ha j m hm with hb | hsi
    · exact hs.2 j m hb
    · exact ho.signer_ne hsi
  refine (run_invariant ht hrun ⟨rfl, ?_⟩).1
  rintro j m ⟨⟩

def moveCoins (w : ℕ → ℕ) (sender recipient n : ℕ) : Option (ℕ → ℕ) :=
  if n ≤ w sender then
    let w := Function.update w sender (w sender - n)
    some (Function.update w recipient (w recipient + n))
  else none

def takeCoins (w : ℕ → ℕ) (who n : ℕ) : Option ((ℕ → ℕ) × ℕ) :=
  if n ≤ w who then some (Function.update w who (w who - n), n) else none

theorem moveCoins_some {sender recipient : ℕ} (hn : sender ≠ recipient)
    (h : moveCoins w sender recipient n = some w') :
    w' sender + n = w sender ∧ w' recipient = w recipient + n := by
  unfold moveCoins at h
  split_ifs at h with hl
  obtain rfl := Option.some.inj h
  refine ⟨?_, ?_⟩
  · rw [Function.update_of_ne hn, Function.update_self]
    exact Nat.sub_add_cancel hl
  · rw [Function.update_self, Function.update_of_ne hn.symm]

theorem takeCoins_some {who credit : ℕ} (h : takeCoins w who n = some (w', credit)) :
    w' who + n = w who := by
  unfold takeCoins at h
  split_ifs at h with hl
  obtain ⟨rfl, -⟩ := Prod.mk.inj (Option.some.inj h)
  rw [Function.update_self]
  exact Nat.sub_add_cancel hl

def bank : Config ℕ :=
  { mock with
    World := ℕ → ℕ
    hyperdrivePalletAccount := 100
    feePalletAccount := 101
    sourceVerified := fun _ _ => true
    sourceVerifiedCore := fun _ _ => true
    processorVersion := fun _ _ => none
    lastProcessorMetric := fun _ _ _ => none
    pricePerMillisecondFor := fun _ _ => some 1
    transfer := moveCoins
    withdraw := takeCoins
    onUnbalanced := fun w _ => w
    assignJob := fun w _ _ => some w
    finalizeJob := fun w _ _ => some w }

theorem bank_fungible : Fungible bank fun w who => w who where
  transfer := fun _ _ _ _ _ hn h => moveCoins_some hn h
  withdraw := fun _ _ _ _ _ h => takeCoins_some h
  onUnbalanced := fun _ _ => rfl
  assignJob := by
    intro w j keys w' h
    rw [Option.some.inj h]
  finalizeJob := by
    intro w j n w' h
    rw [Option.some.inj h]

def paidJob : List (Op bank) :=
  [.dispatch (.signed 1) (.register (plainJob ⟨5, 1000, 1001, 10, 0, by decide⟩ (.single none) 40) none),
    .dispatch (.signed 2) (.advertise ⟨0, none, []⟩),
    .dispatch (.signed 3) (.proposeMatching [⟨mockJob 1, [⟨2, 0⟩]⟩]),
    .dispatch (.signed 2) (.acknowledgeMatch (mockJob 1) []),
    .timestamp 1000, .dispatch (.signed 2) (.report (mockJob 1))]

def rich : ℕ → ℕ := fun _ => 1000

theorem escrow_covers_budgets_of_paidJob :
    (run step (State.genesis bank rich) paidJob).world (0 : ℕ) = 1032 ∧
      (run step (State.genesis bank rich) paidJob).world (0 : ℕ) =
        rich 0 + StorageMap.sum (run step (State.genesis bank rich) paidJob).jobBudgets fun _ n => n :=
  ⟨by decide +kernel,
    escrow_covers_budgets bank (fun w who => w who) bank_fungible ⟨by decide, by decide⟩ rich paidJob
      (by decide +kernel)⟩

end Acurast.Marketplace
