import Acurast.Compute.Pallet

/-! What a call does to the terms of the stakes: amounts, periods, cooldowns and commissions. Every
call is a sequence of amendments to the commitments and the delegations. -/

namespace Acurast.Compute

open Base

variable {A : Type} {T : Config A}

structure Terms (A : Type) where
  block : ℕ
  commitments : StorageMap CommitmentId Commitment
  delegations : StorageMap (A × CommitmentId) Delegation
  lastCommissionIncrease : StorageMap CommitmentId (ℕ × Perbill)

def State.terms (s : State T) : Terms A :=
  ⟨s.blockNumber, s.commitments, s.delegations, s.lastCommissionIncrease⟩

def Stake.terms (st : Stake) : ℕ × ℕ × ℕ × ℕ × Option ℕ :=
  (st.amount, st.rewardableAmount, st.created, st.cooldownPeriod, st.cooldownStarted)

def Commitment.selfWeight (cm : Commitment) : ℕ := cm.weights.current.2.selfRewardWeight

def Commitment.slashWeight (cm : Commitment) : ℕ := cm.weights.current.2.selfSlashWeight

structure Weighs (T : Config A) (cm : Commitment) (stake : Stake) : Prop where
  selfWeight : weightOf T stake.rewardableAmount stake.cooldownPeriod = .ok cm.selfWeight
  slashWeight : stake.cooldownStarted = none → cm.slashWeight = cm.selfWeight

/-- The amendments that not every invariant allows: a longer period for a committer, and a new
stake. -/
inductive Clause where
  | longer (period : ℕ)
  | stake (c : CommitmentId)
  deriving DecidableEq

structure Restates (T : Config A) (allow : Clause → Prop) (block : ℕ) (stake stake' : Stake) :
    Prop where
  created : stake'.created = stake.created
  cooldownPeriod : stake'.cooldownPeriod = stake.cooldownPeriod ∨
    stake.cooldownPeriod ≤ stake'.cooldownPeriod ∧ allow (.longer stake'.cooldownPeriod)
  cooldownStarted : stake'.cooldownStarted = stake.cooldownStarted ∨
    stake.cooldownStarted = none ∧ stake'.cooldownStarted = some block
  rewardable : stake'.rewardableAmount = rewardableOf T stake' stake'.amount ∨
    stake'.amount = stake.amount ∧ stake'.rewardableAmount = stake.rewardableAmount ∧
      stake'.cooldownStarted = stake.cooldownStarted

structure Tends (T : Config A) (stake stake' : Stake) : Prop where
  created : stake'.created = stake.created
  cooldownPeriod : stake'.cooldownPeriod = stake.cooldownPeriod
  rewardable : stake'.terms = stake.terms ∨
    stake'.rewardableAmount = rewardableOf T stake' stake'.amount

structure Agrees (cm cm' : Commitment) : Prop where
  stake : cm'.stake.map Stake.terms = cm.stake.map Stake.terms
  commission : cm'.commission = cm.commission
  selfWeight : cm'.selfWeight = cm.selfWeight
  slashWeight : cm'.slashWeight = cm.slashWeight

theorem Agrees.of_weights {cm cm' : Commitment} {e : ℕ}
    {f : CommitmentWeights → CommitmentWeights} (hs : cm'.stake = cm.stake)
    (hc : cm'.commission = cm.commission)
    (hw : cm.weights.mutate e f = some cm'.weights)
    (hr : ∀ w, (f w).selfRewardWeight = w.selfRewardWeight)
    (hl : ∀ w, (f w).selfSlashWeight = w.selfSlashWeight) : Agrees cm cm' := by
  refine ⟨by rw [hs], hc, ?_, ?_⟩
  · rw [Commitment.selfWeight, MemoryBuffer.current_of_mutate hw, hr, Commitment.selfWeight]
  · rw [Commitment.slashWeight, MemoryBuffer.current_of_mutate hw, hl, Commitment.slashWeight]

theorem Weighs.of_weights {cm : Commitment} {stake : Stake} {e weight : ℕ}
    {m : MemoryBuffer ℕ CommitmentWeights}
    (hw : weightOf T stake.rewardableAmount stake.cooldownPeriod = .ok weight)
    (hm : m.mutate e (fun w => { w with selfRewardWeight := weight, selfSlashWeight := weight }) =
      some cm.weights) : Weighs T cm stake := by
  have hc := MemoryBuffer.current_of_mutate hm
  constructor
  · rw [Commitment.selfWeight, hc]
    exact hw
  · intro _
    rw [Commitment.slashWeight, Commitment.selfWeight, hc]

variable [DecidableEq A]

inductive Amends (T : Config A) (allow : Clause → Prop) : Terms A → Terms A → Prop
  | tick {b : Terms A} : Amends T allow b { b with block := b.block + 1 }
  | agree {b : Terms A} {c : CommitmentId} {cm cm' : Commitment}
      (found : b.commitments.lookup c = some cm) (agrees : Agrees cm cm') :
      Amends T allow b { b with commitments := b.commitments.insert c cm' }
  | restate {b : Terms A} {c : CommitmentId} {cm cm' : Commitment} {stake stake' : Stake}
      (found : b.commitments.lookup c = some cm) (staked : cm.stake = some stake)
      (staked' : cm'.stake = some stake') (restates : Restates T allow b.block stake stake')
      (commission : cm'.commission = cm.commission)
      (weighs : Weighs T cm' stake') :
      Amends T allow b { b with commitments := b.commitments.insert c cm' }
  | lowerCommission {b : Terms A} {c : CommitmentId} {cm : Commitment} {commission : Perbill}
      (found : b.commitments.lookup c = some cm) (lower : commission.parts ≤ cm.commission.parts) :
      Amends T allow b { b with commitments := (b.commitments.insert c { cm with commission }) }
  | raiseCommission {b : Terms A} {c : CommitmentId} {cm : Commitment} {commission : Perbill}
      (found : b.commitments.lookup c = some cm)
      (since : ∀ last ∈ b.lastCommissionIncrease.lookup c, T.blocksPerDay ≤ b.block - last.1)
      (small : commission.parts ≤ cm.commission.parts + T.maxCommissionIncreasePerDay.parts) :
      Amends T allow b { b with
        commitments := (b.commitments.insert c { cm with commission })
        lastCommissionIncrease := b.lastCommissionIncrease.insert c (b.block, cm.commission) }
  | stake {b : Terms A} {c : CommitmentId} {cm : Commitment} {amount period : ℕ} {auto : Bool}
      (free : (b.commitments.lookup c).bind (·.stake) = none)
      (staked : cm.stake = some (Stake.new amount b.block period auto))
      (min : T.minCooldownPeriod ≤ period) (max : period ≤ T.maxCooldownPeriod)
      (weighs : Weighs T cm (Stake.new amount b.block period auto)) (allowed : allow (.stake c)) :
      Amends T allow b { b with commitments := b.commitments.insert c cm }
  | unstake {b : Terms A} {c : CommitmentId} {cm cm' : Commitment} {stake : Stake} {start : ℕ}
      (found : b.commitments.lookup c = some cm) (staked : cm.stake = some stake)
      (unstaked : cm'.stake = none) (commission : cm'.commission = cm.commission)
      (started : stake.cooldownStarted = some start)
      (ended : saturatingAdd 32 start stake.cooldownPeriod ≤ b.block) :
      Amends T allow b { b with commitments := b.commitments.insert c cm' }
  | tend {b : Terms A} {who : A} {c : CommitmentId} {d d' : Delegation}
      (delegated : b.delegations.lookup (who, c) = some d) (tends : Tends T d.stake d'.stake) :
      Amends T allow b { b with delegations := b.delegations.insert (who, c) d' }
  | leave {b : Terms A} {who : A} {c : CommitmentId} :
      Amends T allow b { b with delegations := b.delegations.erase (who, c) }
  | join {b : Terms A} {who : A} {c : CommitmentId} {cm : Commitment} {stake : Stake} {d : Delegation}
      {amount period : ℕ} {auto : Bool} (found : b.commitments.lookup c = some cm)
      (staked : cm.stake = some stake) (active : stake.cooldownStarted = none)
      (new : d.stake = Stake.new amount b.block period auto) (min : T.minCooldownPeriod ≤ period)
      (max : period ≤ T.maxCooldownPeriod) (shorter : period ≤ stake.cooldownPeriod) :
      Amends T allow b { b with delegations := b.delegations.insert (who, c) d }

def Amendments (T : Config A) (allow : Clause → Prop) : Terms A → Terms A → Prop :=
  Relation.ReflTransGen (Amends T allow)

variable {allow : Clause → Prop} {b b' b₁ b₂ b₃ : Terms A} {s s' s₁ s₂ : State T} {who : A}
  {c : CommitmentId}

theorem Amendments.trans (h : Amendments T allow b₁ b₂) (h' : Amendments T allow b₂ b₃) :
    Amendments T allow b₁ b₃ :=
  Relation.ReflTransGen.trans h h'

theorem Amends.single (h : Amends T allow b b') : Amendments T allow b b' :=
  Relation.ReflTransGen.single h

theorem Amendments.invariant {inv : Terms A → Prop}
    (ha : ∀ b b', Amends T allow b b' → inv b → inv b') (h : Amendments T allow b b')
    (hb : inv b) : inv b' := by
  induction h with
  | refl => exact hb
  | tail _ hl ih => exact ha _ _ hl ih

def stakedId (s : State T) (who : A) (amount : ℕ) : Option CommitmentId :=
  T.commitmentIdFor (T.setLock s.world who (newLockTotal s who amount .staking)) who

def recommitted (s : State T) : Op T → Option CommitmentId
  | .dispatch (.signed who) (.commitCompute amount _ _ _ _) => stakedId s who amount
  | _ => none

def Op.requestedPeriod : Op T → Option ℕ
  | .dispatch _ (.stakeMore _ period _ _ _) => period
  | _ => none

structure Permits (allow : Clause → Prop) (s : State T) (op : Op T) : Prop where
  stake : ∀ c ∈ recommitted s op, allow (.stake c)
  longer : ∀ p ∈ op.requestedPeriod, allow (.longer p)

end Acurast.Compute
