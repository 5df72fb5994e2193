import Acurast.Compute.Postings

/-! The calls on delegations as postings. The rewardable amount of a stored delegation is always
the one its amount gives, so the correction in `sanitizeDelegation` is never made. -/

namespace Acurast.Compute

open Base

theorem rewardableOf_le (st : Stake) (amount : ℕ) : rewardableOf T st amount ≤ amount := by
  unfold rewardableOf
  split_ifs
  · exact PerThing.mulFloor_le _ _
  · exact le_rfl

theorem rewardableOf_mono (st : Stake) (h : m ≤ n) :
    rewardableOf T st m ≤ rewardableOf T st n := by
  unfold rewardableOf
  split_ifs
  · exact Nat.div_le_div_right (Nat.mul_le_mul_right _ h)
  · exact h

theorem reweighLive_weights {st : Stake} (h : reweighLive T cm st d = .ok (d', x, y)) :
    d'.rewardWeight + x = d.rewardWeight ∧ d'.slashWeight + y = d.slashWeight ∧
      (d.stake.created < st.created → x = 0 ∧ y = 0) := by
  unfold reweighLive at h
  split_ifs at h with hl
  · split at h
    · simp only [reweigh, ok_iff, checkedSub_eq_some, Prod.mk.injEq] at h
      obtain ⟨rewardWeight, -, slashWeight, -, x', ⟨hx, rfl⟩, y', ⟨hy, rfl⟩, -, -, -, -, rfl, rfl,
        rfl⟩ := h
      exact ⟨Nat.add_sub_cancel' hx, Nat.add_sub_cancel' hy, fun ht => absurd hl ht.not_ge⟩
    · simp only [pure_eq_ok, Prod.mk.injEq] at h
      obtain ⟨rfl, rfl, rfl⟩ := h
      exact ⟨rfl, rfl, fun _ => ⟨rfl, rfl⟩⟩
  · simp only [pure_eq_ok, Prod.mk.injEq] at h
    obtain ⟨rfl, rfl, rfl⟩ := h
    exact ⟨rfl, rfl, fun _ => ⟨rfl, rfl⟩⟩

theorem decreaseCommitment_stake (h : decreaseCommitment T epoch cm d x y = .ok (cm', d')) :
    SameStake cm cm' ∧
      d'.stake = d.stake ∧ d'.rewardWeight ≤ d.rewardWeight ∧ d'.slashWeight ≤ d.slashWeight := by
  unfold decreaseCommitment at h
  split at h
  · simp only [pure_eq_ok, Prod.mk.injEq] at h
    obtain ⟨rfl, rfl⟩ := h
    exact ⟨⟨rfl, rfl⟩, rfl, le_rfl, le_rfl⟩
  · simp only [ok_iff, Prod.exists, Prod.mk.injEq] at h
    obtain ⟨d₁, _, _, hl, weights, -, rfl, rfl⟩ := h
    obtain ⟨hx, hy, -⟩ := reweighLive_weights hl
    exact ⟨⟨rfl, rfl⟩, (reweighLive_ok hl).1, Nat.le.intro hx, Nat.le.intro hy⟩

theorem decreaseCommitment_lowered (h : decreaseCommitment T epoch cm
      { d with stake := { d.stake with amount := n, rewardableAmount := m } } (d.stake.amount - n)
      (d.stake.rewardableAmount - m) = .ok (cm', d')) (hn : n ≤ d.stake.amount)
    (hm : m ≤ d.stake.rewardableAmount)
    (hl : (n = d.stake.amount ∧ m = d.stake.rewardableAmount) ∨
      (∀ st ∈ cm.stake, st.created ≤ d.stake.created) ∨ allow .staleSlash) :
    Lowered allow cm cm' d d' := by
  unfold decreaseCommitment at h
  split at h
  · next hs =>
    simp only [pure_eq_ok, Prod.mk.injEq] at h
    exact .gone hs h.1.symm
  · next st hs =>
    simp only [ok_iff, Prod.exists, Prod.mk.injEq] at h
    obtain ⟨d₁, x, y, hr, weights, hu, rfl, rfl⟩ := h
    obtain ⟨hx, hy, ht⟩ := reweighLive_weights hr
    have hs₁ := (reweighLive_ok hr).1
    have hw := MemoryBuffer.current_of_mutate hu
    dsimp only at hx hy ht
    rcases Nat.lt_or_ge d.stake.created st.created with hlt | hle
    · obtain ⟨rfl, rfl⟩ := ht hlt
      refine .stale hs hlt ?_ ?_ ?_
      · simp only [Commitment.total, hw, Nat.sub_zero]
      · simp only [Commitment.total, hw, Nat.sub_zero]
      rcases hl with ⟨rfl, rfl⟩ | hl | ha
      · refine .inl fun q => ?_
        cases q <;> simp only [Commitment.total, hw, Nat.sub_self, Nat.sub_zero]
      · exact absurd (hl st hs) hlt.not_ge
      · exact .inr ha
    · refine .live hs hle fun q => ?_
      cases q with
      | amount =>
        simp only [Delegation.quantity, Commitment.total, hs₁]
        exact ⟨hn, trivial⟩
      | rewardableAmount =>
        simp only [Delegation.quantity, Commitment.total, hs₁]
        exact ⟨hm, trivial⟩
      | rewardWeight =>
        simp only [Delegation.quantity, Commitment.total, hw]
        exact ⟨by omega, by omega⟩
      | slashWeight =>
        simp only [Delegation.quantity, Commitment.total, hw]
        exact ⟨by omega, by omega⟩

theorem leaveCommitment_left (h : leaveCommitment epoch cm d kickout = .ok cm') :
    SameStake cm cm' ∧ Left cm cm' d := by
  unfold leaveCommitment at h
  split at h
  · next hs =>
    cases h
    exact ⟨⟨rfl, rfl⟩, .aside (by simp [hs]) rfl⟩
  · next st hs =>
    split_ifs at h with hl
    · simp only [ok_iff] at h
      obtain ⟨-, -, weights, hm, rfl⟩ := h
      have hw := MemoryBuffer.current_of_mutate hm
      refine ⟨⟨rfl, rfl⟩, .live hs hl fun q => ?_⟩
      cases q <;> simp only [Delegation.quantity, Commitment.total, hw]
    · cases h
      refine ⟨⟨rfl, rfl⟩, .aside (fun st' hs' => ?_) rfl⟩
      obtain rfl := Option.mem_unique hs hs'
      exact Nat.lt_of_not_le hl

theorem unlockFunds_world (who : A) (amt : ℕ) (h : s'.world = s.world) :
    (unlockFunds s' who amt).world = (unlockFunds s who amt).world := by
  simp only [unlockFunds, h]

variable {A : Type} [DecidableEq A] {T : Config A} {allow : Notable A → Prop} {s s' : State T}
  {who : A} {c : CommitmentId}

def Regular (s : State T) : Prop := ∀ k d, s.delegations.lookup k = some d →
  d.stake.rewardableAmount = rewardableOf T d.stake d.stake.amount

variable {m n x y epoch left amount amt : ℕ} {d d' : Delegation} {cm cm' : Commitment}
  {kickout check : Bool}

theorem Regular.insert {k : A × CommitmentId} (hs : Regular s)
    (hs' : s'.delegations = s.delegations.insert k d)
    (hd : d.stake.rewardableAmount = rewardableOf T d.stake d.stake.amount) : Regular s' := by
  intro k' d' hd'
  rw [hs'] at hd'
  rcases of_lookup_insert hd' with ⟨-, rfl⟩ | ⟨-, hd'⟩
  · exact hd
  · exact hs k' d' hd'

theorem Posting.regular (h : Posting allow s s') (hs : Regular s) : Regular s' := by
  cases h with
  | rest hl => simpa only [Regular, hl.delegations] using hs
  | outside | create | idle | keep | restake | stake | unstake => exact hs
  | @settle who c d d' hde hse =>
    refine hs.insert rfl ?_
    have hm : d'.stake.amount = d.stake.amount := hse.quantity .amount
    have hre : d'.stake.rewardableAmount = d.stake.rewardableAmount :=
      hse.quantity .rewardableAmount
    rw [hre, hs _ d hde, rewardableOf, rewardableOf, hm, hse.cooldownStarted]
  | lower hf hde hr => exact hs.insert rfl hr.rewardable
  | cool hf hde hr => exact hs.insert rfl hr.rewardable
  | leave =>
    intro k d hd
    exact hs k d (of_lookup_erase hd).2
  | join hf ht ha free hc hw => exact hs.insert rfl hw

theorem Postings.regular (h : Postings allow s s') (hs : Regular s) : Regular s' :=
  h.invariant (fun _ _ => Posting.regular) hs

def pendingSlash (s : State T) (who : A) (c : CommitmentId) : ℕ :=
  (s.delegations.lookup (who, c)).elim 0 fun d => d.stake.accruedSlash +
    (indexAt s c d.stake.created).elim 0 fun e =>
      Accrual.due perTokenDecimals d.slashWeight e.2.slashPerWeight d.slashDebt

structure Accrued (s s' : State T) (who : A) (c : CommitmentId) (d d' : Delegation) : Prop where
  commitments : s'.commitments = s.commitments
  delegated : s.delegations.lookup (who, c) = some d
  delegations : s'.delegations = s.delegations.insert (who, c) d' ∨
    s'.delegations = s.delegations ∧ d' = d
  delegatorTotal : s'.delegatorTotal = s.delegatorTotal
  world : s'.world = s.world
  settles : Settles (indexAt s c d.stake.created) d d'
  settled : SlashSettled (indexAt s c d.stake.created) d'
  accruedSlash : d'.stake.accruedSlash = pendingSlash s who c

theorem accrueDelegator_accrued (h : accrueDelegator s who c = .ok s') (hs : Regular s) :
    ∃ d d', Accrued s s' who c d d' ∧ s'.blockNumber = s.blockNumber := by
  simp only [accrueDelegator, ok_iff] at h
  obtain ⟨cm, hc, d, hd, h⟩ := h
  have hin : indexAt s c d.stake.created = cm.poolRewards.latestEntry d.stake.created := by
    rw [indexAt, hc, Option.bind_some]
  have hp : pendingSlash s who c = d.stake.accruedSlash +
      (cm.poolRewards.latestEntry d.stake.created).elim 0 fun e =>
        Accrual.due perTokenDecimals d.slashWeight e.2.slashPerWeight d.slashDebt := by
    rw [pendingSlash, hd, Option.elim_some, hin]
  split at h
  · next hn =>
    cases h
    rw [hn, Option.elim_none, Nat.add_zero] at hp
    refine ⟨d, d, ⟨rfl, hd, .inr ⟨rfl, rfl⟩, rfl, rfl, ?_, ?_, hp.symm⟩, rfl⟩
    · exact ⟨fun _ => rfl, rfl, rfl, .inl rfl⟩
    · simp [hin, hn, SlashSettled]
  · next t pr hn =>
    simp only [ok_iff, checkedSub_eq_some, checkedAdd_eq_some, Prod.exists] at h
    obtain ⟨earned, -, charged, hh, slash, ⟨-, rfl⟩, accrued, -, accruedSlash, ⟨rfl, -⟩, s₁,
      d₁, ha, rewardDebt, -, slashDebt, hsd, rfl⟩ := h
    -- the rewardable amount is at most the amount, so nothing is corrected
    have hl : d.stake.rewardableAmount ≤ d.stake.amount := by
      rw [hs _ d hd]
      exact rewardableOf_le _ _
    rw [sanitizeDelegation, if_pos hl, pure_eq_ok, Prod.mk.injEq] at ha
    obtain ⟨rfl, rfl⟩ := ha
    rw [hn, Option.elim_some, Accrual.due, ← slashDebtOf_ok hh] at hp
    have hse : SlashSettled (indexAt s c d.stake.created) { d with
        stake := { d.stake with
          accruedReward := accrued, accruedSlash := d.stake.accruedSlash + (charged - d.slashDebt) }
        rewardDebt, slashDebt } := by
      intro e he
      rw [hin, hn] at he
      obtain rfl := Option.some.inj he
      exact slashDebtOf_ok hsd
    refine ⟨d, _, ⟨rfl, hd, .inl rfl, rfl, rfl, ?_, hse, hp.symm⟩, rfl⟩
    exact ⟨fun q => by cases q <;> rfl, rfl, rfl, .inr hse⟩

theorem Accrued.lookup (h : Accrued s s' who c d d') :
    s'.delegations.lookup (who, c) = some d' := by
  rcases h.delegations with hn | ⟨hs, rfl⟩
  · rw [hn, AList.lookup_insert]
  · rw [hs, h.delegated]

theorem Accrued.postings (h : Accrued s s' who c d d') (hb : s'.blockNumber = s.blockNumber) :
    Postings allow s s' := by
  have hw : Trades T s.world s'.world := h.world ▸ .refl
  rcases h.delegations with hn | ⟨hs, -⟩
  · exact Posting.then (.settle h.delegated h.settles)
      (SameLedger.postings ⟨h.commitments, hn, h.delegatorTotal, hw, hb.ge⟩)
  · exact SameLedger.postings ⟨h.commitments, hs, h.delegatorTotal, hw, hb.ge⟩

def slashDue (s : State T) (who : A) (c : CommitmentId) : ℕ :=
  (s.delegations.lookup (who, c)).elim 0 fun d => min d.stake.amount (pendingSlash s who c)

/-- A slash that takes something is taken from a delegation to the present stake, or there is no
stake. -/
def SlashesLive (s : State T) (who : A) (c : CommitmentId) : Prop :=
  slashDue s who c = 0 ∨ ∀ cm ∈ s.commitments.lookup c, ∀ stake ∈ cm.stake,
    ∀ d ∈ s.delegations.lookup (who, c), stake.created ≤ d.stake.created

theorem decreaseDelegatorStake_postings {target taken : ℕ}
    (h : decreaseDelegatorStake s who c target = .ok (s', taken, left)) (hs : Regular s)
    (hd : s.delegations.lookup (who, c) = some d)
    (hl : min d.stake.amount target = 0 ∨ (∀ cm ∈ s.commitments.lookup c, ∀ stake ∈ cm.stake,
      stake.created ≤ d.stake.created) ∨ allow .staleSlash) :
    Postings allow s s' ∧ s'.blockNumber = s.blockNumber ∧ taken = min d.stake.amount target ∧
      left = target - taken ∧ indexAt s' = indexAt s ∧ ∃ d', s'.delegations.lookup (who, c) =
        some d' ∧ Reduces T (indexAt s c d.stake.created) taken d d' := by
  simp only [decreaseDelegatorStake, ok_iff, Prod.exists, Prod.mk.injEq, checkedSub_eq_some] at h
  obtain ⟨cm, hcm, d₀, hd₀, s₁, ho, cm', d', hc, s₂, hto, total, ⟨hle, rfl⟩, rfl, hta, hf⟩ := h
  obtain rfl := Option.mem_unique hd hd₀
  obtain ⟨-, rfl⟩ := updateTotalStake_sub.mp hto
  have hm : (if d.stake.amount < target then d.stake.amount else target) =
      min d.stake.amount target := by
    split_ifs <;> omega
  rw [hta] at hm hc hle ho hf ⊢
  rw [← hm] at hl
  have hk : taken ≤ d.stake.amount := hm ▸ min_le_left _ _
  have hco := lockFunds_covered ho
  obtain rfl := lockFunds_ok ho
  obtain ⟨hsa, ht, hw, hsl⟩ := decreaseCommitment_stake hc
  have hmo : rewardableOf T d.stake (d.stake.amount - taken) ≤ d.stake.rewardableAmount := by
    rw [hs _ d hd]
    exact rewardableOf_mono _ (Nat.sub_le _ _)
  have hn : indexAt s c d.stake.created = cm.poolRewards.latestEntry d.stake.created := by
    rw [indexAt, hcm, Option.bind_some]
  have hred : Reduces T (indexAt s c d.stake.created) taken d d' := by
    obtain ⟨-, -, hr⟩ := decreaseCommitment_ok d hc ⟨rfl, Nat.sub_add_cancel hk, rfl⟩
      ⟨rfl, rfl⟩ ⟨rfl, rfl⟩
    refine ⟨hr.amount, by rw [ht]; rfl, fun q => ?_, hr.created, hn ▸ hr.slash⟩
    cases q with
    | amount => exact Nat.le.intro hr.amount
    | rewardableAmount => simpa only [Delegation.quantity, ht] using hmo
    | rewardWeight => exact hw
    | slashWeight => exact hsl
  have hlow : Lowered allow cm cm' d d' := by
    refine decreaseCommitment_lowered hc (Nat.sub_le _ _) hmo ?_
    rcases hl with rfl | hl | hal
    · rw [Nat.sub_zero]
      exact .inl ⟨rfl, (hs _ d hd).symm⟩
    · exact .inr (.inl (hl cm hcm))
    · exact .inr (.inr hal)
  have ha : d'.stake.amount = d.stake.amount - taken := by rw [ht]
  refine ⟨Posting.then (.lower hcm hd hred hsa hlow hle ?_)
    (.rest rfl ?_), rfl, hm, hf.symm, ?_, d', AList.lookup_insert _, hred⟩
  · rw [ha]
    exact hco
  · rw [ha]
  · exact indexAt_insert hcm rfl hsa.poolRewards

theorem slashDue_eq_zero (hd : s.delegations.lookup (who, c) = some d) (h : d.stake.amount = 0 ∨
      d.stake.accruedSlash = 0 ∧ SlashSettled (indexAt s c d.stake.created) d) :
    slashDue s who c = 0 := by
  rw [slashDue, hd, Option.elim_some]
  rcases h with ha | ⟨hc, hs⟩
  · rw [ha, Nat.zero_min]
  · rw [pendingSlash, hd, Option.elim_some, hc, Nat.zero_add]
    cases he : indexAt s c d.stake.created with
    | none => rw [Option.elim_none, Nat.min_zero]
    | some e => rw [Option.elim_some, Accrual.due_of_floor_le (hs e he).ge, Nat.min_zero]

theorem keepUnslashed_postings (h : keepUnslashed s who c left = .ok s')
    (hd : s.delegations.lookup (who, c) = some d) : ∃ d',
      s' = { s with delegations := s.delegations.insert (who, c) d' } ∧
      d'.stake.accruedSlash = left ∧ Settles none d d' ∧ d'.slashDebt = d.slashDebt := by
  simp only [keepUnslashed, ok_iff] at h
  obtain ⟨d₀, hd₀, rfl⟩ := h
  obtain rfl := Option.mem_unique hd hd₀
  refine ⟨_, rfl, rfl, ⟨fun q => ?_, rfl, rfl, .inl rfl⟩, rfl⟩
  cases q <;> rfl

theorem applyDelegatorSlash_postings (h : applyDelegatorSlash s who c = .ok s') (hs : Regular s)
    (hl : SlashesLive s who c ∨ allow .staleSlash) :
    Postings allow s s' ∧ s'.blockNumber = s.blockNumber ∧ slashDue s' who c = 0 := by
  simp only [applyDelegatorSlash, ok_iff] at h
  obtain ⟨s₁, hacc, d₁, hd₁, h⟩ := h
  obtain ⟨d, d', ha, hb⟩ := accrueDelegator_accrued hacc hs
  obtain rfl := Option.mem_unique hd₁ ha.lookup
  have hp : Postings allow s s₁ := ha.postings hb
  have hn : indexAt s₁ = indexAt s := by
    funext c' created
    simp only [indexAt, ha.commitments]
  have hc := ha.settles.created
  split_ifs at h with hz
  · cases h
    refine ⟨hp, hb, slashDue_eq_zero hd₁ (.inr ⟨hz, ?_⟩)⟩
    rw [hn, hc]
    exact ha.settled
  · simp only [bind_eq_ok, Prod.exists] at h
    obtain ⟨s₂, taken, left, hdec, s₃, hu, hke⟩ := h
    have hd : min d₁.stake.amount d₁.stake.accruedSlash = slashDue s who c := by
      have hm : d₁.stake.amount = d.stake.amount := ha.settles.quantity .amount
      rw [slashDue, ha.delegated, Option.elim_some, ha.accruedSlash, hm]
    have hl₁ : min d₁.stake.amount d₁.stake.accruedSlash = 0 ∨ (∀ cm ∈ s₁.commitments.lookup c,
        ∀ st ∈ cm.stake, st.created ≤ d₁.stake.created) ∨ allow .staleSlash := by
      rw [hd, ha.commitments, hc]
      rcases hl with (hd | hl) | hal
      · exact .inl hd
      · exact .inr (.inl fun cm hcm st hst => hl cm hcm st hst d ha.delegated)
      · exact .inr (.inr hal)
    obtain ⟨hlo, hb₂, ht, hf, hi₂, d₂, hd₂, hr⟩ :=
      decreaseDelegatorStake_postings hdec (hp.regular hs) hd₁ hl₁
    obtain ⟨w, hw, rfl⟩ := burnFrom_ok hu
    have hres : Postings allow s₂ { s₂ with world := w } :=
      Postings.rest rfl hw
    obtain ⟨d₃, rfl, hl₃, hse, hde⟩ := keepUnslashed_postings hke hd₂
    have hk : Postings allow { s₂ with world := w } { s₂ with
        world := w, delegations := s₂.delegations.insert (who, c) d₃ } :=
      Posting.postings (.settle hd₂ ⟨hse.quantity, hse.created, hse.cooldownStarted,
        .inl hde⟩)
    refine ⟨hp.trans (hlo.trans (hres.trans hk)), hb₂.trans hb, ?_⟩
    refine slashDue_eq_zero (AList.lookup_insert _) ?_
    have ha₃ : d₃.stake.amount = d₂.stake.amount := hse.quantity .amount
    have hw₃ : d₃.slashWeight = d₂.slashWeight := hse.quantity .slashWeight
    have hm := hr.amount
    -- either the stake covered the slash, or nothing of the stake is left
    rcases Nat.le_total d₁.stake.accruedSlash d₁.stake.amount with hle | hle
    · rw [Nat.min_eq_right hle] at ht
      refine .inr ⟨by omega, ?_⟩
      have hc₃ : d₃.stake.created = d.stake.created :=
        hse.created.trans (hr.created.trans hc)
      have hs₂ : SlashSettled (indexAt s c d.stake.created) d₂ := by
        rcases hr.slash with ⟨hw₂, he₂⟩ | hset
        · simpa only [SlashSettled, hw₂, he₂] using ha.settled
        · rwa [hn, hc] at hset
      intro e he
      rw [hde, hw₃]
      refine hs₂ e ?_
      rw [← hn, ← hi₂, ← hc₃]
      exact he
    · rw [Nat.min_eq_left hle] at ht
      exact .inl (by omega)

theorem withdrawDelegationFor_postings {reward : ℕ}
    (h : withdrawDelegationFor s who c = .ok (s', reward)) (hs : Regular s)
    (hl : SlashesLive s who c ∨ allow .staleSlash) :
    Postings allow s s' ∧ s'.blockNumber = s.blockNumber ∧ slashDue s' who c = 0 := by
  simp only [withdrawDelegationFor, withdrawDelegatorAccrued, takeAccruedReward, ok_iff, Prod.exists,
    Prod.mk.injEq] at h
  obtain ⟨s₁, r, ⟨s₂, hsl, d, hd, rfl, rfl⟩, s₃, hp, rfl, -⟩ := h
  obtain ⟨ho, hb, hu⟩ := applyDelegatorSlash_postings hsl hs hl
  obtain ⟨w, hw, rfl⟩ := payDelegator_ok hp
  have hse : Settles (indexAt s₂ c d.stake.created) d { d with
      stake := { d.stake with
        accruedReward := 0, paid := saturatingAdd 128 d.stake.paid d.stake.accruedReward } } :=
    ⟨fun q => by cases q <;> rfl, rfl, rfl, .inl rfl⟩
  refine ⟨ho.trans (Posting.then (.settle hd hse) (.rest rfl hw)), hb, ?_⟩
  · simp only [slashDue, pendingSlash, hd, Option.elim_some] at hu
    simp only [slashDue, pendingSlash, State.log, AList.lookup_insert, Option.elim_some]
    exact hu

theorem startDelegationCooldown_postings (h : startDelegationCooldown s who c = .ok s')
    (hs : Regular s) : Postings allow s s' ∧ s'.blockNumber = s.blockNumber := by
  simp only [startDelegationCooldown, ok_iff, checkedSub_eq_some] at h
  obtain ⟨cm, hc, st, ht, d, hd, -, hn, -, hli, -, -, w, -, -, ⟨hl, rfl⟩, weights,
    hm, debt, -, rfl⟩ := h
  have hw := MemoryBuffer.current_of_mutate hm
  have hr : d.stake.rewardableAmount = d.stake.amount := by
    rw [hs _ d hd, rewardableOf, hn, Option.isSome_none, if_neg Bool.false_ne_true]
  have ha : T.cooldownRewardRatio.mulFloor d.stake.amount ≤ d.stake.amount :=
    PerThing.mulFloor_le _ _
  refine ⟨Posting.postings (.cool hc hd ⟨rfl, rfl, fun q => ?_, rfl, .inl ⟨rfl, rfl⟩⟩ ⟨rfl, rfl⟩
    ht hli fun q => ?_), rfl⟩
  · cases q with
    | amount | slashWeight => exact le_rfl
    | rewardableAmount => exact ha.trans hr.ge
    | rewardWeight => exact hl
  · cases q with
    | amount => simp only [Delegation.quantity, Commitment.total, Nat.sub_self, Nat.sub_zero, le_refl,
        and_self]
    | rewardableAmount =>
      simp only [Delegation.quantity, Commitment.total, hr]
      exact ⟨ha, trivial⟩
    | rewardWeight =>
      simp only [Delegation.quantity, Commitment.total, hw]
      exact ⟨hl, trivial⟩
    | slashWeight => simp only [Delegation.quantity, Commitment.total, hw, Nat.sub_self,
        Nat.sub_zero, le_refl, and_self]

theorem cooldownDelegationFor_postings (h : cooldownDelegationFor s who c = .ok s') (hs : Regular s)
    (hl : SlashesLive s who c ∨ allow .staleSlash) : Postings allow s s' := by
  simp only [cooldownDelegationFor, bind_eq_ok] at h
  obtain ⟨s₁, hsl, hc⟩ := h
  obtain ⟨hp, -⟩ := applyDelegatorSlash_postings hsl hs hl
  exact hp.trans (startDelegationCooldown_postings hc (hp.regular hs)).1

theorem closeDelegation_postings (h : closeDelegation s who c check kickout = .ok s') :
    Postings allow s s' ∧ s'.blockNumber = s.blockNumber := by
  simp only [closeDelegation, ok_iff, checkedSub_eq_some] at h
  obtain ⟨cm, hc, d, hd, -, -, cm', hl, s₁, ht, total, ⟨hle, rfl⟩, s₂, hu, rfl⟩ := h
  obtain ⟨hs, hf⟩ := leaveCommitment_left hl
  obtain ⟨-, rfl⟩ := updateTotalStake_sub.mp ht
  obtain ⟨w, hw, rfl⟩ := unlockAndSlash_ok hu
  rw [unlockFunds_world (s := s)] at hw
  · exact ⟨Posting.then (.leave hc hd hs hf hle) (.rest rfl hw), rfl⟩
  · rfl

theorem endDelegationFor_postings {reward : ℕ}
    (h : endDelegationFor s who c check kickout = .ok (s', reward)) (hs : Regular s)
    (hl : SlashesLive s who c ∨ allow .staleSlash) : Postings allow s s' := by
  simp only [endDelegationFor, ok_iff, Prod.exists, Prod.mk.injEq] at h
  obtain ⟨s₁, r, hw, s₂, hc, rfl, -⟩ := h
  obtain ⟨hp, -⟩ := withdrawDelegationFor_postings hw hs hl
  exact hp.trans (closeDelegation_postings hc).1

def Fits (q : Quantity) (s : State T) : Prop := ∀ c cm stake, s.commitments.lookup c = some cm →
  cm.stake = some stake → liveSum s.delegations q c stake.created < 2 ^ q.width

omit [DecidableEq A] in
theorem joinCommitment_totals {w : ℕ} (h : joinCommitment epoch cm amt w = .ok cm')
    (hd : d.stake.amount = amt ∧
      d.stake.rewardableAmount = amt ∧ d.rewardWeight = w ∧ d.slashWeight = w) :
    SameStake cm cm' ∧ ∀ q, cm'.total q = saturatingAdd q.width (cm.total q) (d.quantity q) := by
  simp only [joinCommitment, ok_iff] at h
  obtain ⟨weights, hm, rfl⟩ := h
  have hw := MemoryBuffer.current_of_mutate hm
  obtain ⟨ha, hre, hr, hs⟩ := hd
  refine ⟨⟨rfl, rfl⟩, fun q => ?_⟩
  cases q <;> simp only [Delegation.quantity, Commitment.total, Quantity.width, hw, ha,
    hre, hr, hs]

theorem delegateFor_postings {per : ℕ} {auto : Bool}
    (h : delegateFor s who c amount per auto = .ok s')
    (hf : ∀ q, Fits q s' ∨ allow (.overflow q)) (hal : allow (.join who c)) :
    Postings allow s s' := by
  simp only [delegateFor, ok_iff, asU128_eq_ok, checkedAdd_eq_some] at h
  obtain ⟨cm, hh, s₁, hl, w, hw, r, -, slash, hs, -, hr, _, ⟨rfl, -⟩, _,
    ⟨rfl, -⟩, cm', hj, s₂, ho, total, ⟨rfl, hlt⟩, -, -, rfl⟩ := h
  obtain ⟨-, rfl⟩ := updateTotalStake_add.mp ho
  have hco := lockFunds_covered hl
  obtain rfl := lockFunds_ok hl
  obtain ⟨hc, -, -, hpe, st, ht, -, hn⟩ := checkDelegation_ok hh
  have hm : w ≤ amount := by
    rw [weightOf_ok hw]
    apply Nat.div_le_of_le_mul
    rw [Nat.mul_comm]
    exact Nat.mul_le_mul_right amount hpe
  have ha : amount < 2 ^ 128 := Nat.lt_of_le_of_lt (Nat.le_add_left _ _) hlt
  obtain ⟨hsa, hto⟩ := joinCommitment_totals
    (d := ⟨Stake.new amount s.blockNumber per auto, w, w, r, slash⟩) hj
    ⟨rfl, rfl, rfl, rfl⟩
  refine Posting.then (.join hc ht hn hr rfl rfl ?_ hsa hto (fun q => ?_)
    (fun q => ?_) hco hal) (.rest rfl .refl)
  · intro e he
    simp only [indexAt, hc, Option.bind_some, Stake.new] at he
    rw [MemoryBuffer.getLatest_eq, he, Option.map_some, Option.getD_some] at hs
    exact floorOf_ok hs
  · cases q with
    | amount | rewardableAmount => exact ha
    | rewardWeight | slashWeight => exact Nat.lt_of_le_of_lt hm ha
  · exact (hf q).imp_left fun h => h c cm' st (AList.lookup_insert _) (hsa.stake.trans ht)

theorem payDelegator_postings {r : ℕ} (h : payDelegator s who c r = .ok s') :
    Postings allow s s' := by
  obtain ⟨w, hw, rfl⟩ := payDelegator_ok h
  exact Postings.rest rfl hw

theorem delegateMoreFor_postings {extra : ℕ} {per : Option ℕ} {auto : Option Bool}
    (h : delegateMoreFor s who c extra per auto = .ok s') (hs : Regular s)
    (hl : SlashesLive s who c ∨ allow .staleSlash)
    (hf : ∀ q, Fits q s' ∨ allow (.overflow q)) (hj : allow (.join who c)) :
    Postings allow s s' := by
  simp only [delegateMoreFor, ok_iff, Prod.exists] at h
  obtain ⟨d, -, -, -, cm, -, st, -, -, -, amt, -, -, -, s₁, r, hn, s₂, hp, hd⟩ := h
  have hen : Postings allow s s₁ := endDelegationFor_postings hn hs hl
  exact hen.trans ((payDelegator_postings hp).trans (delegateFor_postings hd hf hj))

theorem redelegateFor_postings {old new : CommitmentId} (h : redelegateFor s who old new = .ok s')
    (hs : Regular s) (hl : SlashesLive s who old ∨ allow .staleSlash)
    (hf : ∀ q, Fits q s' ∨ allow (.overflow q)) (hj : allow (.join who new)) :
    Postings allow s s' := by
  simp only [redelegateFor, ok_iff, Prod.exists] at h
  obtain ⟨d, -, -, -, cm, -, st, -, -, -, -, -, s₁, r, hn, s₂, hp, hd⟩ := h
  have hen : Postings allow s s₁ := endDelegationFor_postings hn hs hl
  exact hen.trans ((payDelegator_postings hp).trans (delegateFor_postings hd hf hj))

theorem compoundDelegator_postings (h : compoundDelegator s who c = .ok s') (hs : Regular s)
    (hl : SlashesLive s who c ∨ allow .staleSlash)
    (hf : ∀ q, Fits q s' ∨ allow (.overflow q)) (hj : allow (.join who c)) :
    Postings allow s s' := by
  simp only [compoundDelegator, bind_eq_ok, Prod.exists] at h
  obtain ⟨s₁, r, hw, hm⟩ := h
  obtain ⟨hp, -, hd⟩ := withdrawDelegationFor_postings hw hs hl
  exact hp.trans (delegateMoreFor_postings hm (hp.regular hs) (.inl (.inl hd)) hf hj)

end Acurast.Compute
