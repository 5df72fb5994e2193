import Acurast.Compute.Overstake

/-! What a redelegation is checked for. The new commitment is compared with the delegation that moves,
not with the commitment it leaves. -/

namespace Acurast.Compute

open Base

variable {A : Type} {T : Config A} {s s' s₁ s₂ s₃ : State T} {who : A} {c : CommitmentId}

def OnlyAt (c : CommitmentId) (s s' : State T) : Prop :=
  ∀ c', c' ≠ c → s'.commitments.lookup c' = s.commitments.lookup c'

theorem OnlyAt.of_same (h : s'.commitments = s.commitments) : OnlyAt c s s' :=
  fun c' _ => by rw [h]

theorem OnlyAt.of_insert {cm : Commitment} (h : s'.commitments = s.commitments.insert c cm) :
    OnlyAt c s s' :=
  fun c' hc' => by rw [h, AList.lookup_insert_ne hc']

theorem OnlyAt.trans (h : OnlyAt c s₁ s₂) (h' : OnlyAt c s₂ s₃) : OnlyAt c s₁ s₃ :=
  fun c' hc' => (h' c' hc').trans (h c' hc')

theorem sanitizeDelegation_onlyAt {d d' : Delegation} (h : sanitizeDelegation s c d = .ok (s', d')) :
    OnlyAt c s s' := by
  unfold sanitizeDelegation at h
  split_ifs at h
  · simp only [pure_eq_ok, Prod.mk.injEq] at h
    exact .of_same (by rw [h.1])
  · simp only [ok_iff, Prod.mk.injEq] at h
    obtain ⟨_, -, _, -, _, -, rfl, -⟩ := h
    exact .of_insert rfl

/-- What the ratio check says of the weights: the two units above the limit are what the rounding of
`from_rational` loses. -/
theorem lt_of_delegationWeightRatio {epoch : ℕ} {cm : Commitment} {ratio : Perquintill}
    {w : CommitmentWeights} (h : delegationWeightRatio epoch cm = .ok ratio)
    (hw : cm.weights.getLatest epoch = some w) :
    w.delegationsRewardWeight * 10 ^ 18 ≤
      (ratio.parts + 2) * (w.selfSlashWeight + w.delegationsRewardWeight) := by
  simp only [delegationWeightRatio, hw, Option.getD_some, ok_iff, checkedAdd_eq_some] at h
  obtain ⟨total, ⟨rfl, -⟩, -, hle, rfl⟩ := h
  have hs : saturatedInto 128 (w.selfSlashWeight + w.delegationsRewardWeight) ≤
    w.selfSlashWeight + w.delegationsRewardWeight := saturatedInto_le
  split_ifs with hq
  · have hlt := PerThing.lt_fromRational (n := 10 ^ 18) (by decide) hq hle
    rcases Nat.lt_or_ge w.delegationsRewardWeight (2 ^ 128) with hf | hf
    · rw [saturatedInto_eq_self hf] at hlt ⊢
      exact hlt.le.trans (Nat.mul_le_mul_left _ hs)
    · -- both sides are cut off, and their ratio is one
      have hd : saturatedInto 128 w.delegationsRewardWeight =
          saturatedInto 128 (w.selfSlashWeight + w.delegationsRewardWeight) := by
        unfold saturatedInto maxOf
        omega
      rw [hd, Nat.mul_comm] at hlt
      have hn := Nat.lt_of_mul_lt_mul_right hlt
      rw [Nat.mul_comm, hd]
      exact Nat.mul_le_mul hn.le (Nat.le_add_left _ _)
  · have hz : w.delegationsRewardWeight = 0 := by
      unfold saturatedInto maxOf at hq
      omega
    rw [hz, Nat.zero_mul]
    exact Nat.zero_le _

variable [DecidableEq A]

theorem accrueDelegator_onlyAt (h : accrueDelegator s who c = .ok s') : OnlyAt c s s' := by
  simp only [accrueDelegator, ok_iff] at h
  obtain ⟨cm, -, d, -, h⟩ := h
  split at h
  · exact .of_same (by rw [pure_eq_ok.mp h])
  · simp only [ok_iff, Prod.exists] at h
    obtain ⟨_, -, _, -, _, -, _, -, _, -, s₁, d₁, hs, _, -, _, -, rfl⟩ := h
    exact (sanitizeDelegation_onlyAt hs).trans (.of_same rfl)

theorem decreaseDelegatorStake_onlyAt {target taken left : ℕ}
    (h : decreaseDelegatorStake s who c target = .ok (s', taken, left)) : OnlyAt c s s' := by
  simp only [decreaseDelegatorStake, ok_iff, Prod.exists, Prod.mk.injEq] at h
  obtain ⟨cm, -, d, -, s₁, hl, cm', d', -, s₂, ht, total, -, rfl, -⟩ := h
  obtain ⟨-, rfl⟩ := updateTotalStake_sub.mp ht
  obtain rfl := lockFunds_ok hl
  exact .of_insert rfl

theorem withdrawDelegationFor_onlyAt {reward : ℕ}
    (h : withdrawDelegationFor s who c = .ok (s', reward)) : OnlyAt c s s' := by
  simp only [withdrawDelegationFor, withdrawDelegatorAccrued, takeAccruedReward, applyDelegatorSlash,
    ok_iff, Prod.exists, Prod.mk.injEq] at h
  obtain ⟨s₁, r, ⟨s₂, ⟨s₃, ha, d₃, -, hs⟩, d, -, rfl, -⟩, s₄, hp, rfl, -⟩ := h
  obtain ⟨w, -, rfl⟩ := payDelegator_ok hp
  have hc := accrueDelegator_onlyAt ha
  have hl : OnlyAt c s₃ s₂ := by
    split_ifs at hs
    · exact .of_same (by rw [pure_eq_ok.mp hs])
    · simp only [keepUnslashed, ok_iff, Prod.exists] at hs
      obtain ⟨s₅, taken, left, hd, s₆, hb, d₅, -, rfl⟩ := hs
      obtain ⟨w, -, rfl⟩ := burnFrom_ok hb
      exact (decreaseDelegatorStake_onlyAt hd).trans (.of_same rfl)
  exact (hc.trans hl).trans (.of_same rfl)

theorem endDelegationFor_onlyAt {check kickout : Bool} {reward : ℕ}
    (h : endDelegationFor s who c check kickout = .ok (s', reward)) : OnlyAt c s s' := by
  simp only [endDelegationFor, closeDelegation, ok_iff, Prod.exists, Prod.mk.injEq] at h
  obtain ⟨s₁, r, hw, s₂, ⟨cm, -, d, -, -, -, cm', -, s₃, ht, total, -, s₄, hu, rfl⟩, rfl, -⟩ := h
  obtain ⟨-, rfl⟩ := updateTotalStake_sub.mp ht
  obtain ⟨w, -, rfl⟩ := unlockAndSlash_ok hu
  exact (withdrawDelegationFor_onlyAt hw).trans (.of_insert rfl)

def stakeOf (s : State T) (c : CommitmentId) : Option Stake :=
  (s.commitments.lookup c).bind (·.stake)

/-- The delegation `d` is locked for the whole period of the commitment it leaves, and so heavy that
`MaxDelegationRatio` would let it join none with less than that commitment's stake. -/
structure Demanding (T : Config A) (d : Delegation) (old new : Stake) : Prop where
  period : old.cooldownPeriod ≤ d.stake.cooldownPeriod
  weight : old.amount * (T.maxDelegationRatio.parts + 2) <
    d.stake.amount * d.stake.cooldownPeriod / T.maxCooldownPeriod *
      (10 ^ 18 - (T.maxDelegationRatio.parts + 2)) + (T.maxDelegationRatio.parts + 2)
  bounded : new.cooldownPeriod ≤ T.maxCooldownPeriod

omit [DecidableEq A] in
theorem Demanding.amount_le {d : Delegation} {old new : Stake} {self delegated : ℕ}
    (h : Demanding T d old new)
    (hd : d.stake.amount * d.stake.cooldownPeriod / T.maxCooldownPeriod ≤ delegated)
    (hr : delegated * 10 ^ 18 ≤ (T.maxDelegationRatio.parts + 2) * (self + delegated)) :
    old.amount ≤ self := by
  have hw := h.weight
  generalize T.maxDelegationRatio.parts + 2 = r at hw hr
  by_contra hlt
  have hone : (self + 1) * r ≤ old.amount * r := Nat.mul_le_mul_right r (by omega)
  have hdel := Nat.mul_le_mul_right (10 ^ 18 - r) hd
  rw [Nat.mul_sub delegated] at hdel
  rw [Nat.mul_add, Nat.mul_comm r, Nat.mul_comm r] at hr
  rw [Nat.add_mul, Nat.one_mul] at hone
  omega

structure Admits (T : Config A) (amount period : ℕ) (cm : Commitment) (stake : Stake) : Prop where
  staked : cm.stake = some stake
  lasts : period ≤ stake.cooldownPeriod
  active : stake.cooldownStarted = none
  ratio : ∃ delegated, amount * period / T.maxCooldownPeriod ≤ delegated ∧
    delegated * 10 ^ 18 ≤ (T.maxDelegationRatio.parts + 2) * (cm.slashWeight + delegated)

theorem delegateFor_admits {amount period : ℕ} {auto : Bool}
    (h : delegateFor s who c amount period auto = .ok s') :
    ∃ cm stake, s.commitments.lookup c = some cm ∧ Admits T amount period cm stake := by
  simp only [delegateFor, checkDelegation, checkJoined, joinCommitment, ok_iff] at h
  obtain ⟨cm, ⟨-, -, -, -, -, -, _, hc, stake, hs, -, hp, -, ha, rfl⟩, s₁, hl, weight, hw,
    _, -, _, -, -, -, _, -, _, -, cm', ⟨weights, hwe, rfl⟩, s₂, ht, _, -, -,
    ⟨ratio, hra, -, hle, -⟩, -⟩ := h
  obtain ⟨-, rfl⟩ := updateTotalStake_add.mp ht
  refine ⟨_, stake, hc, hs, hp, ha, _, ?_, (lt_of_delegationWeightRatio hra
    (MemoryBuffer.getLatest_of_mutate hwe).1).trans (Nat.mul_le_mul_right _ ?_)⟩
  · have hlt : weight < 2 ^ 256 := by
      simp only [weightOf, ok_iff, checkedMul_eq_some, checkedDiv_eq_some] at hw
      obtain ⟨product, ⟨rfl, hpr⟩, -, rfl⟩ := hw
      exact (Nat.div_le_self _ _).trans_lt hpr
    rw [← weightOf_ok hw]
    exact le_min (Nat.le_add_left _ _) (Nat.le_sub_one_of_lt hlt)
  · exact Nat.add_le_add_right hle 2

structure RedelegationRules (T : Config A) (block created : ℕ) (old new : Stake) : Prop where
  amount : old.amount ≤ new.amount
  cooldownPeriod : old.cooldownPeriod ≤ new.cooldownPeriod
  active : new.cooldownStarted = none
  blocked : old.cooldownStarted = none → T.redelegationBlockingPeriod * T.epoch ≤ block - created

def twoManagers : Config ℕ :=
  { mock with managerIdFor := fun _ who => if who = 1 ∨ who = 6 then some who else none }

def twoBeats : List (Op twoManagers) := [beat, .heartbeat 7 6 6 [(1, 10, 1)]]

/-- Account `2` stakes ten units for the longest period, account `5` two units for `period`; account
`4` delegates to one of them for `period` and waits for three epochs. -/
def movable (period committer amount : ℕ) : List (Op twoManagers) :=
  [newPool 0 100, signed 2 (.offerBacking 1), signed 1 (.acceptBackingOffer 2), signed 5 (.offerBacking 6),
    signed 6 (.acceptBackingOffer 5), .block] ++ twoBeats ++ [.block, signed 2 (stakeCallFor 108),
    signed 5 (.commitCompute (2 * unit) period [⟨1, 8 * 10 ^ 18⟩] PerThing.zero false),
    signed 4 (.delegate committer amount period false)] ++
    twoBeats ++ [.block] ++ twoBeats ++ [.block] ++ twoBeats ++ [.block]

def delegatedTo (committer : ℕ) : List (Op twoManagers) := movable 36 committer unit

def filled : List (Op twoManagers) := movable 108 5 (18 * unit)

end Acurast.Compute
