import Acurast.Compute.Step

/-! The postings the pallet makes to the books of the delegations. A posting says what happens at once to
a commitment's totals, a delegation, the delegator's total and the lock. -/

namespace Acurast.Compute

open Base

section Ledger

variable {A : Type} {T : Config A} {s s' : State T}

structure SameLedger (s s' : State T) : Prop where
  commitments : s'.commitments = s.commitments
  delegations : s'.delegations = s.delegations
  delegatorTotal : s'.delegatorTotal = s.delegatorTotal
  world : Trades T s.world s'.world
  blockNumber : s.blockNumber ≤ s'.blockNumber

end Ledger

inductive Quantity where
  | amount | rewardableAmount | rewardWeight | slashWeight
  deriving DecidableEq

def Quantity.width : Quantity → ℕ
  | .amount | .rewardableAmount => 128
  | .rewardWeight | .slashWeight => 256

def Delegation.quantity (d : Delegation) : Quantity → ℕ
  | .amount => d.stake.amount
  | .rewardableAmount => d.stake.rewardableAmount
  | .rewardWeight => d.rewardWeight
  | .slashWeight => d.slashWeight

def Commitment.total (cm : Commitment) : Quantity → ℕ
  | .amount => cm.delegationsTotalAmount
  | .rewardableAmount => cm.delegationsTotalRewardableAmount
  | .rewardWeight => cm.weights.current.2.delegationsRewardWeight
  | .slashWeight => cm.weights.current.2.delegationsSlashWeight

variable {A : Type} {T : Config A}

def liveSum (delegations : StorageMap (A × CommitmentId) Delegation) (q : Quantity)
    (c : CommitmentId) (created : ℕ) : ℕ :=
  StorageMap.sum delegations fun k d =>
    if k.2 = c ∧ created ≤ d.stake.created then d.quantity q else 0

/-- What an invariant leaves out or tells apart: a slash of a delegation to an earlier stake, a
stake made in the block of a delegation, totals out of range, an outside world that changes locks or
owners, a new delegation, raised indices, the end of a stake. -/
inductive Notable (A : Type) where
  | staleSlash | sameBlock | overflow (q : Quantity) | outside
  | join (who : A) (c : CommitmentId) | raise | unstake

structure Keeps (block : ℕ) (stake stake' : Stake) (cm cm' : Commitment) : Prop where
  staked : cm.stake = some stake
  staked' : cm'.stake = some stake'
  total : ∀ q, cm'.total q = cm.total q
  created : stake'.created = stake.created
  cooldownPeriod : stake.cooldownPeriod ≤ stake'.cooldownPeriod
  cooldownStarted : stake'.cooldownStarted = stake.cooldownStarted ∨
    (stake.cooldownStarted = none ∧ stake'.cooldownStarted = some block)
  poolRewards : cm'.poolRewards = cm.poolRewards ∨ ∃ f : PoolReward → PoolReward,
    (∀ r, r.slashPerWeight ≤ maxOf 256 →
      r.slashPerWeight ≤ (f r).slashPerWeight ∧ (f r).slashPerWeight ≤ maxOf 256) ∧
    cm.poolRewards.mutate stake.created f = some cm'.poolRewards

structure Settles (index : Option (ℕ × PoolReward)) (d d' : Delegation) : Prop where
  quantity : ∀ q, d'.quantity q = d.quantity q
  created : d'.stake.created = d.stake.created
  cooldownStarted : d'.stake.cooldownStarted = d.stake.cooldownStarted
  slash : d'.slashDebt = d.slashDebt ∨ SlashSettled index d'

structure Reduces (T : Config A) (index : Option (ℕ × PoolReward)) (lost : ℕ) (d d' : Delegation) :
    Prop where
  amount : d'.stake.amount + lost = d.stake.amount
  rewardable : d'.stake.rewardableAmount = rewardableOf T d'.stake d'.stake.amount
  quantity : ∀ q, d'.quantity q ≤ d.quantity q
  created : d'.stake.created = d.stake.created
  slash : (d'.slashWeight = d.slashWeight ∧ d'.slashDebt = d.slashDebt) ∨ SlashSettled index d'

def Follows (cm cm' : Commitment) (d d' : Delegation) : Prop :=
  ∀ q, d'.quantity q ≤ d.quantity q ∧ cm'.total q = cm.total q - (d.quantity q - d'.quantity q)

/-- What a slash of a delegation does to the commitment: the totals follow a live delegation, and
without a stake nothing changes. For a stale one the amounts change all the same. -/
inductive Lowered (allow : Notable A → Prop) (cm cm' : Commitment) (d d' : Delegation) : Prop
  | live {stake : Stake} (staked : cm.stake = some stake) (live : stake.created ≤ d.stake.created)
      (follows : Follows cm cm' d d')
  | gone (unstaked : cm.stake = none) (same : cm' = cm)
  | stale {stake : Stake} (staked : cm.stake = some stake) (stale : d.stake.created < stake.created)
      (rewardWeight : cm'.total .rewardWeight = cm.total .rewardWeight)
      (slashWeight : cm'.total .slashWeight = cm.total .slashWeight)
      (amounts : (∀ q, cm'.total q = cm.total q) ∨ allow .staleSlash)

inductive Left (cm cm' : Commitment) (d : Delegation) : Prop
  | live {stake : Stake} (staked : cm.stake = some stake) (live : stake.created ≤ d.stake.created)
      (totals : ∀ q, cm'.total q = cm.total q - d.quantity q)
  | aside (stale : ∀ stake ∈ cm.stake, d.stake.created < stake.created) (same : cm' = cm)

structure SameStake (cm cm' : Commitment) : Prop where
  stake : cm'.stake = cm.stake
  poolRewards : cm'.poolRewards = cm.poolRewards

def Owns (T : Config A) (w : T.World) (who : A) (c : CommitmentId) : Prop :=
  ∃ w₀, Trades T w₀ w ∧ (T.commitmentIdFor w₀ who = some c ∨ T.ownerFor w₀ c = some who)

structure LeavesLocks (T : Config A) (w w' : T.World) : Prop where
  balanceLocked : T.balanceLocked w' = T.balanceLocked w
  commitmentIdFor : T.commitmentIdFor w' = T.commitmentIdFor w
  ownerFor : T.ownerFor w' = T.ownerFor w

variable [DecidableEq A]

def obligations (s : State T) (who : A) : ℕ :=
  stakedBy s who + StorageMap.getD s.delegatorTotal who 0

def Covers (s : State T) (who : A) (amount : ℕ) (reason : LockReason) : Prop :=
  newLockTotal s who amount reason ≤ T.totalBalance s.world who

inductive Posting (allow : Notable A → Prop) : State T → State T → Prop
  | rest {s s' : State T} (ledger : SameLedger s s') : Posting allow s s'
  | outside {s : State T} {world : T.World} (allowed : LeavesLocks T s.world world ∨ allow .outside) :
      Posting allow s { s with world }
  | create {s : State T} {who : A} {c nextCommitmentId : CommitmentId} {world : T.World}
      (free : T.commitmentIdFor s.world who = none)
      (created : T.createCommitmentId s.world c who = some world) :
      Posting allow s { s with nextCommitmentId, world }
  | idle {s : State T} {c : CommitmentId} {cm : Commitment} {lastScoringEpoch : ℕ}
      (found : s.commitments.lookup c = some cm) (unstaked : cm.stake = none) :
      Posting allow s { s with commitments := s.commitments.insert c { cm with lastScoringEpoch } }
  | keep {s : State T} {c : CommitmentId} {cm cm' : Commitment} {stake stake' : Stake}
      (found : s.commitments.lookup c = some cm) (keeps : Keeps s.blockNumber stake stake' cm cm')
      (amount : stake'.amount = stake.amount)
      (raises : cm'.poolRewards = cm.poolRewards ∨ allow .raise) :
      Posting allow s { s with commitments := s.commitments.insert c cm' }
  | restake {s : State T} {who : A} {c : CommitmentId} {cm cm' : Commitment} {stake stake' : Stake}
      (found : s.commitments.lookup c = some cm) (keeps : Keeps s.blockNumber stake stake' cm cm')
      (poolRewards : cm'.poolRewards = cm.poolRewards) (owns : Owns T s.world who c)
      (locks : Covers s who stake'.amount .staking) :
      Posting allow s { s with
        commitments := s.commitments.insert c cm'
        world := T.setLock s.world who (newLockTotal s who stake'.amount .staking) }
  | stake {s : State T} {who : A} {c : CommitmentId} {cm : Commitment} {stake : Stake}
      (stakes : Stakes (s.commitments.lookup c) cm stake) (created : stake.created = s.blockNumber)
      (total : ∀ q, cm.total q = 0) (cooldownStarted : stake.cooldownStarted = none)
      (cooldownPeriod : T.minCooldownPeriod ≤ stake.cooldownPeriod)
      (older : (∀ who d, s.delegations.lookup (who, c) = some d → d.stake.created < s.blockNumber) ∨
        allow .sameBlock)
      (owns : T.commitmentIdFor
        (T.setLock s.world who (newLockTotal s who stake.amount .staking)) who = some c)
      (locks : Covers s who stake.amount .staking) :
      Posting allow s { s with
        commitments := s.commitments.insert c cm
        world := T.setLock s.world who (newLockTotal s who stake.amount .staking) }
  | unstake {s : State T} {who : A} {c : CommitmentId} {cm cm' : Commitment} {stake : Stake}
      {start : ℕ} (found : s.commitments.lookup c = some cm) (staked : cm.stake = some stake)
      (unstaked : cm'.stake = none) (poolRewards : cm'.poolRewards = cm.poolRewards)
      (started : stake.cooldownStarted = some start)
      (ended : saturatingAdd 32 start stake.cooldownPeriod ≤ s.blockNumber)
      (owns : Owns T s.world who c) (unstakes : allow .unstake) :
      Posting allow s { s with
        commitments := s.commitments.insert c cm'
        world := (unlockFunds s who stake.amount).world }
  | settle {s : State T} {who : A} {c : CommitmentId} {d d' : Delegation}
      (delegated : s.delegations.lookup (who, c) = some d)
      (settles : Settles (indexAt s c d.stake.created) d d') :
      Posting allow s { s with delegations := s.delegations.insert (who, c) d' }
  | lower {s : State T} {who : A} {c : CommitmentId} {cm cm' : Commitment} {d d' : Delegation}
      {lost : ℕ} (found : s.commitments.lookup c = some cm)
      (delegated : s.delegations.lookup (who, c) = some d)
      (reduces : Reduces T (indexAt s c d.stake.created) lost d d') (same : SameStake cm cm')
      (lowered : Lowered allow cm cm' d d')
      (covered : lost ≤ StorageMap.getD s.delegatorTotal who 0)
      (locks : Covers s who d'.stake.amount (.delegation c)) :
      Posting allow s { s with
        commitments := s.commitments.insert c cm'
        delegations := s.delegations.insert (who, c) d'
        delegatorTotal :=
          s.delegatorTotal.insert who (StorageMap.getD s.delegatorTotal who 0 - lost)
        world := T.setLock s.world who (newLockTotal s who d'.stake.amount (.delegation c)) }
  | cool {s : State T} {who : A} {c : CommitmentId} {cm cm' : Commitment} {d d' : Delegation}
      {stake : Stake} (found : s.commitments.lookup c = some cm)
      (delegated : s.delegations.lookup (who, c) = some d)
      (reduces : Reduces T (indexAt s c d.stake.created) 0 d d') (same : SameStake cm cm')
      (staked : cm.stake = some stake) (live : stake.created ≤ d.stake.created)
      (follows : Follows cm cm' d d') :
      Posting allow s { s with
        commitments := s.commitments.insert c cm'
        delegations := s.delegations.insert (who, c) d' }
  | leave {s : State T} {who : A} {c : CommitmentId} {cm cm' : Commitment} {d : Delegation}
      (found : s.commitments.lookup c = some cm)
      (delegated : s.delegations.lookup (who, c) = some d) (same : SameStake cm cm')
      (left : Left cm cm' d) (covered : d.stake.amount ≤ StorageMap.getD s.delegatorTotal who 0) :
      Posting allow s { s with
        commitments := s.commitments.insert c cm'
        delegations := s.delegations.erase (who, c)
        delegatorTotal :=
          s.delegatorTotal.insert who (StorageMap.getD s.delegatorTotal who 0 - d.stake.amount)
        world := (unlockFunds s who d.stake.amount).world }
  | join {s : State T} {who : A} {c : CommitmentId} {cm cm' : Commitment} {d : Delegation}
      {stake : Stake} (found : s.commitments.lookup c = some cm) (staked : cm.stake = some stake)
      (active : stake.cooldownStarted = none) (free : s.delegations.lookup (who, c) = none)
      (created : d.stake.created = s.blockNumber)
      (rewardable : d.stake.rewardableAmount = rewardableOf T d.stake d.stake.amount)
      (settled : SlashSettled (indexAt s c d.stake.created) d) (same : SameStake cm cm')
      (totals : ∀ q, cm'.total q = saturatingAdd q.width (cm.total q) (d.quantity q))
      (small : ∀ q, d.quantity q < 2 ^ 128)
      (fits : ∀ q, liveSum (s.delegations.insert (who, c) d) q c stake.created < 2 ^ q.width ∨
        allow (.overflow q))
      (locks : Covers s who d.stake.amount (.delegation c))
      (joins : allow (.join who c)) :
      Posting allow s { s with
        commitments := s.commitments.insert c cm'
        delegations := s.delegations.insert (who, c) d
        delegatorTotal :=
          s.delegatorTotal.insert who (StorageMap.getD s.delegatorTotal who 0 + d.stake.amount)
        world := T.setLock s.world who (newLockTotal s who d.stake.amount (.delegation c)) }

def Postings (allow : Notable A → Prop) : State T → State T → Prop :=
  Relation.ReflTransGen (Posting allow)

variable {allow : Notable A → Prop} {s s' s₁ s₂ s₃ : State T}

theorem Postings.refl (s : State T) : Postings allow s s := Relation.ReflTransGen.refl

theorem Postings.trans (h : Postings allow s₁ s₂) (h' : Postings allow s₂ s₃) :
    Postings allow s₁ s₃ :=
  Relation.ReflTransGen.trans h h'

theorem Posting.postings (h : Posting allow s s') : Postings allow s s' :=
  Relation.ReflTransGen.single h

theorem Posting.then (h : Posting allow s₁ s₂) (h' : Postings allow s₂ s₃) : Postings allow s₁ s₃ :=
  Relation.ReflTransGen.head h h'

theorem SameLedger.postings (h : SameLedger s s') : Postings allow s s' :=
  Posting.postings (.rest h)

theorem Postings.rest (h : (s'.commitments, s'.delegations, s'.delegatorTotal, s'.blockNumber) =
      (s.commitments, s.delegations, s.delegatorTotal, s.blockNumber))
    (hw : Trades T s.world s'.world) : Postings allow s s' := by
  simp only [Prod.mk.injEq] at h
  exact SameLedger.postings ⟨h.1, h.2.1, h.2.2.1, hw, h.2.2.2.ge⟩

theorem Postings.invariant {inv : State T → Prop}
    (hp : ∀ s s', Posting allow s s' → inv s → inv s') (h : Postings allow s s') (hs : inv s) :
    inv s' := by
  induction h with
  | refl => exact hs
  | tail _ hl ih => exact hp _ _ hl ih

end Acurast.Compute
