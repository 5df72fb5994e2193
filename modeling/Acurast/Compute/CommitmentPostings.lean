import Acurast.Compute.DelegationPostings

/-! The calls on commitments, a slash call and a heartbeat as postings. -/

namespace Acurast.Compute

open Base

variable {A : Type} [DecidableEq A] {T : Config A} {allow : Notable A → Prop} {s s' s₁ : State T}
  {who : A} {c : CommitmentId}

def Aged (s : State T) : Prop := ∀ k d, s.delegations.lookup k = some d →
  (s.commitments.lookup k.2).bind (·.stake) = none → d.stake.created < s.blockNumber

theorem stakeFor_postings {amount period : ℕ} {commission : Perbill} {auto : Bool}
    (h : stakeFor s who amount period commission auto = .ok s')
    (ha : Aged s ∨ allow .sameBlock) : Postings allow s s' := by
  simp only [stakeFor, ok_iff] at h
  obtain ⟨-, -, -, hpe, -, -, s₁, hl, c, ho, -, hf, weight, -, s₂, ht, pool, hpo, rfl⟩ := h
  obtain ⟨-, rfl⟩ := updateTotalStake_add.mp ht
  have hc := lockFunds_covered hl
  obtain rfl := lockFunds_ok hl
  have hol : (∀ who d, s.delegations.lookup (who, c) = some d → d.stake.created < s.blockNumber) ∨
      allow .sameBlock :=
    ha.imp_left fun ha who d hd => ha (who, c) d hd hf
  have hs : Stakes (s.commitments.lookup c)
      { stake := some (Stake.new amount s.blockNumber period auto)
        commission
        delegationsTotalAmount := 0
        delegationsTotalRewardableAmount := 0
        weights := MemoryBuffer.newWith s.currentCycle.epoch ⟨weight, weight, 0, 0⟩
        poolRewards := pool
        lastScoringEpoch := (s.commitments.lookup c).elim 0 (·.lastScoringEpoch)
        lastSlashingEpoch := (s.commitments.lookup c).elim 0 (·.lastSlashingEpoch) }
      (Stake.new amount s.blockNumber period auto) := ⟨hf, rfl, hpo, rfl, rfl⟩
  refine Posting.then (.stake hs rfl (fun q => ?_) rfl hpe hol ho hc) (.rest rfl .refl)
  cases q <;> rfl

theorem stakeMoreFor_postings {extra : ℕ} {period : Option ℕ} {commission : Option Perbill}
    {auto : Option Bool} (h : stakeMoreFor s who extra period commission auto = .ok s') :
    Postings allow s s' := by
  simp only [stakeMoreFor, ok_iff, Prod.exists] at h
  obtain ⟨c, hc, cm, hm, s₁, cm₁, hco, stake, hs, -, -, s₂, stake₂, hr, -, hp,
    weight, -, weights, hu, s₃, ht, -, -, rfl⟩ := h
  obtain ⟨-, rfl⟩ := updateTotalStake_add.mp ht
  obtain ⟨last, commission, rfl, rfl, -⟩ :=
    whenSome_changeCommission (fun _ => True) hm hco
  have hw := MemoryBuffer.current_of_mutate hu
  have hk : ∀ stake' : Stake, stake'.created = stake.created →
      stake.cooldownPeriod ≤ stake'.cooldownPeriod → stake'.cooldownStarted = stake.cooldownStarted →
      Keeps s.blockNumber stake stake' cm
        { cm with commission, stake := some stake', weights } := by
    intro stake' hcr ho hst
    refine ⟨hs, rfl, fun q => ?_, hcr, ho, .inl hst, .inl rfl⟩
    cases q <;> simp only [Commitment.total, hw]
  rcases raiseStake_cases hr with ⟨rfl, rfl, -⟩ | ⟨-, rfl, hv, rfl⟩
  · refine Posting.then (.keep hm (hk _ ?_ hp ?_) ?_ (.inl ?_)) (.rest rfl .refl)
    · rfl
    · rfl
    · rfl
    · rfl
  · have how : Owns T s.world who c := ⟨s.world, .refl, .inl hc⟩
    refine Posting.then (.restake hm (hk _ ?_ hp ?_) ?_ how ?_) (.rest rfl .refl)
    · rfl
    · rfl
    · rfl
    · exact hv

theorem decreaseCommitterStake_postings {lost : ℕ}
    (h : decreaseCommitterStake s who c lost = .ok s') (hw : Owns T s.world who c) :
    Postings allow s s' := by
  simp only [decreaseCommitterStake, ok_iff] at h
  obtain ⟨cm, hc, st, hs, s₁, hl, w, -, weights, hm, s₂, ht, rfl⟩ := h
  obtain ⟨-, rfl⟩ := updateTotalStake_sub.mp ht
  have hco := lockFunds_covered hl
  obtain rfl := lockFunds_ok hl
  have hwe := MemoryBuffer.current_of_mutate hm
  have hk : Keeps s.blockNumber st
      { st with
        amount := st.amount - lost
        rewardableAmount := rewardableOf T st (st.amount - lost) } cm
      { cm with
        stake := some { st with
          amount := st.amount - lost
          rewardableAmount := rewardableOf T st (st.amount - lost) }
        weights } := by
    refine ⟨hs, rfl, fun q => ?_, rfl, le_rfl, .inl rfl, .inl rfl⟩
    cases q <;> simp only [Commitment.total, hwe]
  exact Posting.then (.restake hc hk rfl hw hco) (.rest rfl .refl)

theorem withdrawCommitterFor_postings {reward : ℕ}
    (h : withdrawCommitterFor s who c = .ok (s', reward)) :
    Postings allow s s' ∧ s'.blockNumber = s.blockNumber ∧ Trades T s.world s'.world := by
  simp only [withdrawCommitterFor, withdrawCommitterAccrued, ok_iff, Prod.exists, Prod.mk.injEq] at h
  obtain ⟨s₁, r, ⟨cm, hc, st, hs, rfl, rfl⟩, s₂, ht, rfl, -⟩ := h
  obtain ⟨w, hw, rfl⟩ := transferReward_ok ht
  have hk : ∀ st' : Stake, st'.created = st.created →
      st'.cooldownPeriod = st.cooldownPeriod → st'.cooldownStarted = st.cooldownStarted →
      Keeps s.blockNumber st st' cm { cm with stake := some st' } := by
    intro st' hr ho hst
    refine ⟨hs, rfl, fun q => ?_, hr, ho.ge, .inl hst, .inl rfl⟩
    cases q <;> rfl
  refine ⟨Posting.then (.keep hc (hk { st with
      accruedReward := 0, paid := saturatingAdd 128 st.paid st.accruedReward } rfl rfl rfl) rfl
      (.inl rfl))
    (.rest rfl hw), rfl, hw⟩

theorem cooldownCommitmentFor_postings (h : cooldownCommitmentFor s c = .ok s') :
    Postings allow s s' := by
  simp only [cooldownCommitmentFor, ok_iff] at h
  obtain ⟨cm, hc, st, hs, -, hn, w, -, weights, hm, rfl⟩ := h
  have hw := MemoryBuffer.current_of_mutate hm
  have hk : Keeps s.blockNumber st
      { st with
        cooldownStarted := some s.blockNumber
        rewardableAmount := T.cooldownRewardRatio.mulFloor st.amount } cm
      { cm with
        stake := some { st with
          cooldownStarted := some s.blockNumber
          rewardableAmount := T.cooldownRewardRatio.mulFloor st.amount }
        weights } := by
    refine ⟨hs, rfl, fun q => ?_, rfl, le_rfl, .inr ⟨hn, rfl⟩, .inl rfl⟩
    cases q <;> simp only [Commitment.total, hw]
  exact Posting.postings (.keep hc hk rfl (.inl rfl))

theorem closeCommitment_postings (h : closeCommitment s who c true = .ok s')
    (ho : Owns T s.world who c) (hn : allow .unstake) : Postings allow s s' := by
  simp only [closeCommitment, checkCommitmentCooldown, if_true, ok_iff] at h
  obtain ⟨cm, hc, st, ht, -, ⟨start, hs, hen⟩, s₁, hto, hu⟩ := h
  obtain ⟨-, rfl⟩ := updateTotalStake_sub.mp hto
  obtain ⟨w, hw, rfl⟩ := unlockAndSlash_ok hu
  rw [unlockFunds_world (s := s)] at hw
  · refine Posting.then (.unstake hc ht ?_ ?_ hs hen ho hn) (.rest rfl hw)
    · rfl
    · rfl
  · rfl

theorem endCommitmentFor_postings (h : endCommitmentFor s who c true = .ok s')
    (hc : T.commitmentIdFor s.world who = some c) (hu : allow .unstake) :
    Postings allow s s' := by
  simp only [endCommitmentFor, bind_eq_ok, Prod.exists] at h
  obtain ⟨s₁, r, hwi, hl⟩ := h
  have hw : Postings allow s s₁ ∧ s₁.blockNumber = s.blockNumber ∧
      Trades T s.world s₁.world := withdrawCommitterFor_postings hwi
  obtain ⟨hp, -, ht⟩ := hw
  exact hp.trans (closeCommitment_postings hl ⟨s.world, ht, .inl hc⟩ hu)

theorem compoundCommitter_postings (h : compoundCommitter s who c = .ok s') :
    Postings allow s s' := by
  simp only [compoundCommitter, bind_eq_ok, Prod.exists] at h
  obtain ⟨s₁, r, hw, hm⟩ := h
  exact (withdrawCommitterFor_postings hw).1.trans (stakeMoreFor_postings hm)

theorem raise_slashPerWeight (increase : ℕ) (r : PoolReward) (hr : r.slashPerWeight ≤ maxOf 256) :
    r.slashPerWeight ≤ saturatingAdd 256 r.slashPerWeight increase ∧
      saturatingAdd 256 r.slashPerWeight increase ≤ maxOf 256 :=
  ⟨le_min (Nat.le_add_right _ _) hr, min_le_right _ _⟩

theorem markSlashed_postings {lastEpoch : ℕ} {increase : Option ℕ}
    (h : markSlashed s c lastEpoch increase = .ok s') (hr : allow .raise) :
    Postings allow s s' := by
  simp only [markSlashed, ok_iff, whenSome_eq_ok] at h
  obtain ⟨cm, hc, st, hs, pool, hp, rfl⟩ := h
  have hk : Keeps s.blockNumber st st cm
      { cm with poolRewards := pool, lastSlashingEpoch := lastEpoch } := by
    refine ⟨hs, hs, fun q => ?_, rfl, le_rfl, .inl rfl, ?_⟩
    · cases q <;> rfl
    · rcases hp with ⟨-, rfl⟩ | ⟨increase, -, hm⟩
      · exact .inl rfl
      · exact .inr ⟨_, raise_slashPerWeight increase, hm⟩
  exact Posting.postings (.keep hc hk rfl (.inr hr))

theorem doSlash_postings {slasher : A} (h : doSlash s c slasher = .ok s')
    (hr : allow .raise) : Postings allow s s' := by
  simp only [doSlash, bind_eq_ok] at h
  obtain ⟨plan, hp, h⟩ := h
  split_ifs at h
  · cases h
    exact .refl s
  · simp only [ok_iff, Prod.exists] at h
    obtain ⟨shares, hs, owner, ho, s₁, hl, s₂, credit, ht, s₄, hm, rfl⟩ := h
    have hlow : Postings allow s s₁ := by
      unfold slashCommitter at hl
      split_ifs at hl
      · cases hl
        exact .refl _
      · exact decreaseCommitterStake_postings hl ⟨s.world, .refl, .inr ho⟩
    obtain ⟨⟨w, hw, rfl⟩, -⟩ := slashFor_ok ht
    have ha : Postings allow s₁ (({ s₁ with world := w } : State T).log
        (.slashed c owner credit)) := Postings.rest rfl hw
    obtain ⟨w', hw', hq⟩ := creditSlasher_world
      (({ s₁ with world := w } : State T).log (.slashed c owner credit)) slasher
      (if shares.selfSlashAmount < T.slashRewardRatio.mulFloor plan.totalSlashAmount then
        shares.selfSlashAmount else T.slashRewardRatio.mulFloor plan.totalSlashAmount) credit
    rw [hq] at hm
    refine hlow.trans (ha.trans (Postings.trans ?_
      ((markSlashed_postings hm hr).trans (.rest rfl .refl))))
    exact .rest rfl hw'

theorem Scored.posting {e weight : ℕ} {cm cm' : Commitment} {es : List (Entry A)}
    (h : Scored e weight c cm cm' es) (hc : s.commitments.lookup c = some cm)
    (hra : allow .raise) :
    Posting allow s { s with commitments := s.commitments.insert c cm' } := by
  cases h with
  | idle hu => exact .idle hc hu
  | @accrued st reward hs =>
    have hk : Keeps s.blockNumber st { st with accruedReward := reward } cm
        { cm with stake := some { st with accruedReward := reward }, lastScoringEpoch := e } := by
      refine ⟨hs, rfl, fun q => ?_, rfl, le_rfl, .inl rfl, .inl rfl⟩
      cases q <;> rfl
    exact .keep hc hk rfl (.inr hra)
  | @credited st reward credit raised hs ha =>
    simp only [raiseRewardIndex, ok_iff] at ha
    obtain ⟨-, -, extra, -, hm⟩ := ha
    have hk : Keeps s.blockNumber st { st with accruedReward := reward } cm
        { cm with
          stake := some { st with accruedReward := reward }
          lastScoringEpoch := e
          poolRewards := raised } := by
      refine ⟨hs, rfl, fun q => ?_, rfl, le_rfl, .inl rfl, .inr ⟨_, ?_, hm⟩⟩
      · cases q <;> rfl
      · exact fun r hr => ⟨le_rfl, hr⟩
    exact .keep hc hk rfl (.inr hra)

theorem commit_postings (s : State T) (proc manager : A) (m : ManagerId)
    (ms : List MetricInput) (hr : allow .raise) :
    Postings allow s (commit s proc manager m ms).1 := by
  obtain ⟨s₁, procs, s₂, w, rewards, hc, hre, ht, hq⟩ :=
    commit_writes s proc manager m ms
  obtain ⟨_, _, _, rfl⟩ := hc.writes
  rw [hq]
  cases hre with
  | nothing => exact Postings.rest rfl ht
  | scored hb hf hfr hs =>
    exact Posting.then (hs.posting hf hr) (.rest rfl ht)

end Acurast.Compute
