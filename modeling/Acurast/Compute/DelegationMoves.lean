import Acurast.Compute.Moves

/-! The calls on delegations as moves, and the reward they hand out. -/

namespace Acurast.Compute

open Base

theorem reweigh_ok {pr : PoolReward} (h : reweigh T d pr = .ok (d', x, y)) : d'.stake = d.stake ∧
      d'.rewardDebt = Accrual.ceilDebt perTokenDecimals d'.rewardWeight pr.rewardPerWeight ∧
      d'.slashDebt = d'.slashWeight * pr.slashPerWeight / perTokenDecimals := by
  simp only [reweigh, ok_iff, Prod.mk.injEq] at h
  obtain ⟨rewardWeight, -, slashWeight, -, -, -, -, -, rewardDebt, hr, slashDebt, hs,
    rfl, -, -⟩ := h
  exact ⟨rfl, rewardDebtOf_ok hr, slashDebtOf_ok hs⟩

theorem reweighLive_ok {st : Stake} (h : reweighLive T cm st d = .ok (d', x, y)) :
    d'.stake = d.stake ∧ (d' = d ∨
      RewardSettled (cm.poolRewards.latestEntry d.stake.created) d' ∧
      SlashSettled (cm.poolRewards.latestEntry d.stake.created) d') := by
  unfold reweighLive at h
  split_ifs at h
  · split at h
    · next pr hp =>
      rw [MemoryBuffer.getLatest_eq, Option.map_eq_some_iff] at hp
      obtain ⟨⟨t, pr⟩, hn, rfl⟩ := hp
      obtain ⟨hs, hr, hl⟩ := reweigh_ok h
      refine ⟨hs, .inr ⟨?_, ?_⟩⟩
      all_goals rintro e he; obtain rfl := Option.mem_unique hn he; assumption
    · simp only [pure_eq_ok, Prod.mk.injEq] at h
      exact ⟨by rw [h.1], .inl h.1.symm⟩
  · simp only [pure_eq_ok, Prod.mk.injEq] at h
    exact ⟨by rw [h.1], .inl h.1.symm⟩

theorem decreaseCommitment_ok {lost : ℕ} (d₀ : Delegation)
    (h : decreaseCommitment T epoch cm d x y = .ok (cm', d'))
    (ht : d.stake.created = d₀.stake.created ∧ d.stake.amount + lost = d₀.stake.amount ∧
      d.stake.accruedReward = d₀.stake.accruedReward)
    (hr : d.rewardWeight = d₀.rewardWeight ∧ d.rewardDebt = d₀.rewardDebt)
    (hl : d.slashWeight = d₀.slashWeight ∧ d.slashDebt = d₀.slashDebt) :
    Retotals cm cm' ∧ d'.stake = d.stake ∧
      Revises (cm.poolRewards.latestEntry d₀.stake.created) lost d₀ d' := by
  obtain ⟨hc, ha, hac⟩ := ht
  unfold decreaseCommitment at h
  split at h
  · simp only [pure_eq_ok, Prod.mk.injEq] at h
    obtain ⟨rfl, rfl⟩ := h
    exact ⟨⟨⟨rfl, rfl, rfl, rfl⟩, rfl, rfl, rfl⟩, rfl, hc, ha, hac, .inl hr, .inl hl⟩
  · simp only [ok_iff, Prod.exists, Prod.mk.injEq] at h
    obtain ⟨d₁, _, _, hli, weights, hw, rfl, rfl⟩ := h
    obtain ⟨hs, hsi⟩ := reweighLive_ok hli
    rw [hc] at hsi
    refine ⟨⟨.of_weights rfl rfl hw (fun _ => rfl) fun _ => rfl, rfl, rfl, rfl⟩, hs, hs ▸ hc,
      hs ▸ ha, hs ▸ hac, ?_, ?_⟩
    · rcases hsi with rfl | ⟨hse, -⟩
      · exact .inl hr
      · exact .inr hse
    · rcases hsi with rfl | ⟨-, hse⟩
      · exact .inl hl
      · exact .inr hse

theorem joinCommitment_ok {w : ℕ} (h : joinCommitment epoch cm amt w = .ok cm') :
    Retotals cm cm' ∧ cm'.stake = cm.stake := by
  simp only [joinCommitment, ok_iff] at h
  obtain ⟨weights, hw, rfl⟩ := h
  exact ⟨⟨.of_weights rfl rfl hw (fun _ => rfl) fun _ => rfl, rfl, rfl, rfl⟩, rfl⟩

theorem leaveCommitment_ok (h : leaveCommitment epoch cm d kickout = .ok cm') :
    Retotals cm cm' := by
  unfold leaveCommitment at h
  split at h
  · cases h
    exact ⟨⟨rfl, rfl, rfl, rfl⟩, rfl, rfl, rfl⟩
  · split_ifs at h
    · simp only [ok_iff] at h
      obtain ⟨-, -, weights, hw, rfl⟩ := h
      exact ⟨.of_weights rfl rfl hw (fun _ => rfl) fun _ => rfl, rfl, rfl, rfl⟩
    · cases h
      exact ⟨⟨rfl, rfl, rfl, rfl⟩, rfl, rfl, rfl⟩

variable {A : Type} [DecidableEq A] {T : Config A} {allow : Special → Prop} {s s' : State T}
  {who : A} {c : CommitmentId}

def pendingReward (s : State T) (who : A) (c : CommitmentId) : ℕ :=
  (s.delegations.lookup (who, c)).elim 0 fun d => d.stake.accruedReward +
    (indexAt s c d.stake.created).elim 0 fun e =>
      Accrual.due perTokenDecimals d.rewardWeight e.2.rewardPerWeight d.rewardDebt

def HasAccrued (s : State T) (who : A) (c : CommitmentId) (reward : ℕ) : Prop :=
  ∃ d, s.delegations.lookup (who, c) = some d ∧ d.stake.accruedReward = reward ∧
    RewardSettled (indexAt s c d.stake.created) d

variable {d d' : Delegation} {x y epoch left amt period : ℕ} {cm cm' : Commitment}
  {kickout check : Bool}

theorem HasAccrued.eq {r : ℕ} (h : HasAccrued s who c r)
    (hd : s.delegations.lookup (who, c) = some d) :
    d.stake.accruedReward = r ∧ RewardSettled (indexAt s c d.stake.created) d := by
  obtain ⟨d', hd', hr⟩ := h
  rw [hd] at hd'
  rwa [Option.some.inj hd']

theorem HasAccrued.pendingReward_eq {reward : ℕ} (h : HasAccrued s who c reward) :
    pendingReward s who c = reward := by
  obtain ⟨d, hd, hr, hs⟩ := h
  rw [pendingReward, hd, Option.elim_some, hr]
  cases he : indexAt s c d.stake.created with
  | none => rw [Option.elim_none, Nat.add_zero]
  | some e =>
    rw [Option.elim_some, hs e he,
      Accrual.due_of_floor_le (Accrual.floor_le_ceilDebt perTokenDecimals_pos _ _), Nat.add_zero]

theorem sanitizeDelegation_ok (allow : Special → Prop) (h : sanitizeDelegation s c d = .ok (s', d')) :
    Moves allow s s' ∧ s'.delegations = s.delegations ∧ indexAt s' = indexAt s ∧
      Tends T d.stake d'.stake ∧ ∃ amt w, d' = { d with
        stake := { d.stake with rewardableAmount := amt }, rewardWeight := w } := by
  unfold sanitizeDelegation at h
  split_ifs at h
  · simp only [pure_eq_ok, Prod.mk.injEq] at h
    obtain ⟨rfl, rfl⟩ := h
    exact ⟨.refl _, rfl, rfl, ⟨rfl, rfl, .inl rfl⟩, _, _, rfl⟩
  · simp only [ok_iff, Prod.mk.injEq] at h
    obtain ⟨w, -, cm, hc, weights, hw, rfl, rfl⟩ := h
    refine ⟨Move.moves (.retotal hc ⟨.of_weights rfl rfl hw (fun _ => rfl) fun _ => rfl, rfl, rfl, rfl⟩),
      rfl, indexAt_insert hc rfl ?_, ⟨rfl, rfl, .inr rfl⟩, _, w, rfl⟩
    rfl

theorem accrueDelegator_ok (allow : Special → Prop) (h : accrueDelegator s who c = .ok s') :
    Moves allow s s' ∧ HasAccrued s' who c (pendingReward s who c) := by
  simp only [accrueDelegator, ok_iff] at h
  obtain ⟨cm, hm, d, hd, h⟩ := h
  have hin : indexAt s c d.stake.created = cm.poolRewards.latestEntry d.stake.created := by
    rw [indexAt, hm, Option.bind_some]
  simp only [pendingReward, hd, hin, Option.elim_some]
  split at h
  · next hn =>
    cases h
    refine ⟨.refl s, d, hd, by rw [hn, Option.elim_none, Nat.add_zero], ?_⟩
    simp [hin, hn, RewardSettled]
  · next t pr hn =>
    simp only [ok_iff, checkedSub_eq_some, checkedAdd_eq_some, Prod.exists] at h
    obtain ⟨earned, hea, charged, hh, slash, ⟨hde, hsl⟩, accrued, ⟨hc, -⟩,
      accruedSlash, -, s₁, d₁, hs, rewardDebt, hr, slashDebt, hsd, rfl⟩ := h
    obtain ⟨ho, hl, hi₁, ht, amt, w, hd₁⟩ := sanitizeDelegation_ok allow hs
    have he₁ : indexAt s₁ c d.stake.created = some (t, pr) := by rw [hi₁, hin, hn]
    have ha : Accrues (t, pr) (earned - d.rewardDebt) slash d
        { d₁ with rewardDebt, slashDebt } := by
      subst hd₁
      refine ⟨rfl, rfl, ?_, ?_, hc.symm, ?_, rfl, ?_⟩
      · rw [slashDebtOf_ok hea, Accrual.due]
      · rw [← hsl, ← slashDebtOf_ok hh]
        omega
      · rintro e ⟨rfl⟩
        exact rewardDebtOf_ok hr
      · rintro e ⟨rfl⟩
        exact slashDebtOf_ok hsd
    have hten : Tends T d.stake d₁.stake := ⟨ht.created, ht.cooldownPeriod, ht.rewardable⟩
    refine ⟨ho.trans (Move.moves (.accrue (hl ▸ hd) he₁ ha hten)), _, AList.lookup_insert _, ?_, ?_⟩
    · rw [ha.accruedReward, hn, Option.elim_some, ha.reward_eq]
    · have hse := ha.rewardSettled
      rwa [← he₁, ← ha.created] at hse

theorem decreaseDelegatorStake_ok (allow : Special → Prop) {target taken reward : ℕ}
    (h : decreaseDelegatorStake s who c target = .ok (s', taken, left))
    (hr : HasAccrued s who c reward) : Moves allow s s' ∧ HasAccrued s' who c reward := by
  simp only [decreaseDelegatorStake, ok_iff, Prod.exists, Prod.mk.injEq] at h
  obtain ⟨cm, hc, d, hd, s₁, hlo, cm', d', hdec, s₂, ho, total, -, rfl, rfl, -⟩ := h
  obtain ⟨hle, rfl⟩ := updateTotalStake_sub.mp ho
  obtain rfl := lockFunds_ok hlo
  have hl : (if d.stake.amount < target then d.stake.amount else target) ≤ d.stake.amount := by
    split_ifs <;> omega
  obtain ⟨ht, hs, hv⟩ := decreaseCommitment_ok d hdec
    ⟨rfl, Nat.sub_add_cancel hl, rfl⟩ ⟨rfl, rfl⟩ ⟨rfl, rfl⟩
  have hte : Tends T d.stake d'.stake := by
    rw [hs]
    exact ⟨rfl, rfl, .inr rfl⟩
  refine ⟨.step (.retotal hc ht) (.step (.revise hd hle ?_ hte) (Aside.moves (.of_eq rfl) (.inl rfl))), d',
    AList.lookup_insert _, hv.accruedReward.trans (hr.eq hd).1, ?_⟩
  · rwa [indexAt_insert hc rfl ht.poolRewards, indexAt, hc]
  · rw [indexAt_insert hc rfl ht.poolRewards, hv.created]
    rcases hv.reward with ⟨hw, hde⟩ | hse
    · simpa only [RewardSettled, hw, hde] using (hr.eq hd).2
    · rwa [indexAt, hc]

theorem keepUnslashed_ok (allow : Special → Prop) {reward : ℕ}
    (h : keepUnslashed s who c left = .ok s') (hr : HasAccrued s who c reward) :
    Moves allow s s' ∧ HasAccrued s' who c reward := by
  simp only [keepUnslashed, ok_iff] at h
  obtain ⟨d, hd, rfl⟩ := h
  have ha := hr.eq hd
  refine ⟨Move.moves (.revise hd (Nat.zero_le _) ?_ ⟨rfl, rfl, .inl rfl⟩), _, AList.lookup_insert _,
    ha.1, ha.2⟩
  exact ⟨rfl, rfl, rfl, .inl ⟨rfl, rfl⟩, .inl ⟨rfl, rfl⟩⟩

theorem applyDelegatorSlash_ok (allow : Special → Prop) (h : applyDelegatorSlash s who c = .ok s') :
    Moves allow s s' ∧ HasAccrued s' who c (pendingReward s who c) := by
  simp only [applyDelegatorSlash, ok_iff] at h
  obtain ⟨s₁, ha, d, -, h⟩ := h
  obtain ⟨hm₁, hr₁⟩ := accrueDelegator_ok allow ha
  split_ifs at h with hz
  · cases h
    exact ⟨hm₁, hr₁⟩
  · simp only [bind_eq_ok, Prod.exists] at h
    obtain ⟨s₂, taken, left, hd, s₃, hb, hk⟩ := h
    obtain ⟨hm₂, hr₂⟩ := decreaseDelegatorStake_ok allow hd hr₁
    obtain ⟨w, -, rfl⟩ := burnFrom_ok hb
    obtain ⟨hm₃, hr₃⟩ := keepUnslashed_ok allow hk hr₂
    exact ⟨hm₁.trans (hm₂.trans ((Moves.world rfl).trans hm₃)), hr₃⟩

theorem withdrawDelegationFor_ok (allow : Special → Prop) {reward : ℕ}
    (h : withdrawDelegationFor s who c = .ok (s', reward)) :
    Moves allow s s' ∧ HasAccrued s' who c 0 ∧ reward = pendingReward s who c := by
  simp only [withdrawDelegationFor, withdrawDelegatorAccrued, takeAccruedReward, ok_iff, Prod.exists,
    Prod.mk.injEq] at h
  obtain ⟨s₁, r, ⟨s₂, hs, d, hd, rfl, rfl⟩, s₃, hp, rfl, rfl⟩ := h
  obtain ⟨hm, hr⟩ := applyDelegatorSlash_ok allow hs
  obtain ⟨w, -, rfl⟩ := payDelegator_ok hp
  exact ⟨hm.trans (.step (.payout hd) (Aside.moves (.of_eq rfl) (.inl rfl))),
    ⟨_, AList.lookup_insert _, rfl, (hr.eq hd).2⟩, (hr.eq hd).1⟩

theorem startDelegationCooldown_ok (h : startDelegationCooldown s who c = .ok s') :
    Moves allow s s' := by
  simp only [startDelegationCooldown, ok_iff] at h
  obtain ⟨cm, hc, st, -, d, hd, -, -, -, -, pr, hp, w, -, _, -, weights, hw, debt, hde, rfl⟩ := h
  rw [MemoryBuffer.getLatest_eq, Option.map_eq_some_iff] at hp
  obtain ⟨⟨t, pr⟩, hn, rfl⟩ := hp
  refine .step (.retotal hc ?_) (.step (.revise hd (Nat.zero_le _) ?_ ?_) (.refl _))
  · exact ⟨.of_weights rfl rfl hw (fun _ => rfl) fun _ => rfl, rfl, rfl, rfl⟩
  · refine ⟨rfl, rfl, rfl, .inr ?_, .inl ⟨rfl, rfl⟩⟩
    intro e he
    simp only [indexAt, AList.lookup_insert, Option.bind_some, hn] at he
    obtain rfl := Option.some.inj he
    exact rewardDebtOf_ok hde
  · exact ⟨rfl, rfl, .inr rfl⟩

theorem cooldownDelegationFor_ok (h : cooldownDelegationFor s who c = .ok s') : Moves allow s s' := by
  simp only [cooldownDelegationFor, bind_eq_ok] at h
  obtain ⟨s₁, hs, hc⟩ := h
  exact (applyDelegatorSlash_ok allow hs).1.trans (startDelegationCooldown_ok hc)

omit [DecidableEq A] in
theorem checkDelegation_ok (h : checkDelegation s c amt period = .ok cm) :
    s.commitments.lookup c = some cm ∧
      0 < amt ∧ T.minCooldownPeriod ≤ period ∧ period ≤ T.maxCooldownPeriod ∧
      ∃ st, cm.stake = some st ∧ period ≤ st.cooldownPeriod ∧
        st.cooldownStarted = none := by
  simp only [checkDelegation, ok_iff] at h
  obtain ⟨-, ⟨hne, -⟩, -, hm, -, ha, cm', hc, st, ht, -, hs, -, hn, rfl⟩ := h
  exact ⟨hc, Nat.pos_of_ne_zero hne, hm, ha, st, ht, hs, hn⟩

theorem delegateFor_ok {auto : Bool} (h : delegateFor s who c amt period auto = .ok s') :
    Moves allow s s' := by
  simp only [delegateFor, ok_iff, asU128_eq_ok] at h
  obtain ⟨cm, hh, s₁, hl, w, -, r, hr, slash, hs, -, hf, _, ⟨rfl, -⟩, _,
    ⟨rfl, -⟩, cm', hj, s₂, ho, total, -, -, -, rfl⟩ := h
  obtain ⟨-, rfl⟩ := updateTotalStake_add.mp ho
  obtain rfl := lockFunds_ok hl
  obtain ⟨hc, -, hm, ha, st, hst, hsh, hac⟩ := checkDelegation_ok hh
  obtain ⟨ht, hs'⟩ := joinCommitment_ok hj
  refine .step (.retotal hc ht) (.step (.join hf ?_
    (.join (AList.lookup_insert _) (hs'.trans hst) hac rfl hm ha hsh))
    (Aside.moves (.of_eq rfl) (.inl rfl)))
  rw [indexAt_insert hc rfl ht.poolRewards]
  refine ⟨rfl, ?_, ?_⟩
  all_goals
    intro e he
    simp only [indexAt, hc, Option.bind_some, Stake.new] at he
    rw [MemoryBuffer.getLatest_eq, he, Option.map_some, Option.getD_some] at hr hs
  · exact ceilOf_ok hr
  · exact floorOf_ok hs

theorem closeDelegation_ok (h : closeDelegation s who c check kickout = .ok s')
    (hr : HasAccrued s who c 0) : Moves allow s s' := by
  simp only [closeDelegation, ok_iff] at h
  obtain ⟨cm, hc, d, hd, -, -, cm', hl, s₁, ht, total, -, s₂, hu, rfl⟩ := h
  obtain ⟨hle, rfl⟩ := updateTotalStake_sub.mp ht
  obtain ⟨w, -, rfl⟩ := unlockAndSlash_ok hu
  exact .step (.retotal hc (leaveCommitment_ok hl)) (.step (.close hd (hr.eq hd).1 hle)
    (Aside.moves (.of_eq rfl) (.inl rfl)))

theorem endDelegationFor_ok (allow : Special → Prop) {reward : ℕ}
    (h : endDelegationFor s who c check kickout = .ok (s', reward)) :
    Moves allow s s' ∧ reward = pendingReward s who c := by
  simp only [endDelegationFor, ok_iff, Prod.exists, Prod.mk.injEq] at h
  obtain ⟨s₁, r, hw, s₂, hc, rfl, rfl⟩ := h
  obtain ⟨hm, hr, hre⟩ := withdrawDelegationFor_ok allow hw
  exact ⟨hm.trans (closeDelegation_ok hc hr), hre⟩

theorem payDelegator_moves {r : ℕ} (h : payDelegator s who c r = .ok s')
    (hr : r = 0 ∨ allow .repay) : Moves allow s s' := by
  obtain ⟨w, -, rfl⟩ := payDelegator_ok h
  exact .step (.repay hr) (Aside.moves (.of_eq rfl) (.inl rfl))

theorem delegateMoreFor_ok {extra : ℕ} {period : Option ℕ} {auto : Option Bool}
    (h : delegateMoreFor s who c extra period auto = .ok s')
    (hr : pendingReward s who c = 0 ∨ allow .repay) : Moves allow s s' := by
  simp only [delegateMoreFor, ok_iff, Prod.exists] at h
  obtain ⟨d, -, -, -, cm, -, st, -, -, -, amt, -, -, -, s₁, r, hn, s₂, hp, hd⟩ := h
  obtain ⟨hm, rfl⟩ := endDelegationFor_ok allow hn
  exact hm.trans ((payDelegator_moves hp hr).trans (delegateFor_ok hd))

theorem redelegateFor_ok {old new : CommitmentId} (h : redelegateFor s who old new = .ok s')
    (hr : pendingReward s who old = 0 ∨ allow .repay) : Moves allow s s' := by
  simp only [redelegateFor, ok_iff, Prod.exists] at h
  obtain ⟨d, -, -, -, cm, -, st, -, -, -, -, -, s₁, r, hn, s₂, hp, hd⟩ := h
  obtain ⟨hm, rfl⟩ := endDelegationFor_ok allow hn
  exact hm.trans ((payDelegator_moves hp hr).trans (delegateFor_ok hd))

theorem compoundDelegator_ok (h : compoundDelegator s who c = .ok s') : Moves allow s s' := by
  simp only [compoundDelegator, bind_eq_ok, Prod.exists] at h
  obtain ⟨s₁, reward, hw, ho⟩ := h
  obtain ⟨hm, hr, -⟩ := withdrawDelegationFor_ok allow hw
  exact hm.trans (delegateMoreFor_ok ho (.inl hr.pendingReward_eq))

end Acurast.Compute
