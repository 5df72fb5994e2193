import Acurast.Compute.Meter
import Acurast.Compute.Terms

/-! The elementary moves the pallet makes on its books. Every call is a sequence of them, so an invariant
of the books is checked once for each move. -/

namespace Acurast.Compute

open Base

variable {A : Type} {T : Config A}

def sumAt (s : State T) (m : ManagerId) (p : PoolId) : SlidingBuffer (Metric × Metric) :=
  StorageMap.getD s.metricsEpochSum (m, p) default

def indexAt (s : State T) (c : CommitmentId) (created : ℕ) : Option (ℕ × PoolReward) :=
  (s.commitments.lookup c).bind (·.poolRewards.latestEntry created)

def tally (f : Entry A → ℕ) (s : State T) : ℕ := (s.history.map f).sum

theorem tally_charges {f : Entry A → ℕ} (hf : ∀ c p l m, f (.charged c p l m) = 0)
    (c : CommitmentId) (lastEpoch : ℕ) (charges : List (PoolId × ℕ)) :
    ((charges.map (fun p => Entry.charged c p.1 lastEpoch p.2)).map f).sum = 0 := by
  induction charges with
  | nil => rfl
  | cons p rest ih => rw [List.map_cons, List.map_cons, List.sum_cons, hf, ih]

structure Started (s : State T) : Prop where
  zero : s.currentCycle.epochStart = 0 → s.currentCycle.epoch = 0 ∧ s.blockNumber = 0
  lt : s.currentCycle.epoch < 2 ^ 32

structure SameBooks (s s' : State T) : Prop where
  commitments : s'.commitments = s.commitments
  lastCommissionIncrease : s'.lastCommissionIncrease = s.lastCommissionIncrease
  backings : s'.backings = s.backings
  delegations : s'.delegations = s.delegations
  totalStake : s'.totalStake = s.totalStake
  history : s'.history = s.history

structure Aside (s s' : State T) : Prop extends SameBooks s s' where
  blockNumber : s'.blockNumber = s.blockNumber
  currentCycle : s'.currentCycle = s.currentCycle
  metricsEpochSum : s'.metricsEpochSum = s.metricsEpochSum

/-- Epochs only go on, and metric sums are only written for the current one, if they are not ahead
of it. -/
structure Clock (s s' : State T) : Prop where
  started : Started s → Started s'
  epoch_le : Started s → s.currentCycle.epoch ≤ s'.currentCycle.epoch
  sums : ∀ m p, (sumAt s m p).epoch ≤ s.currentCycle.epoch →
    (sumAt s m p).epoch ≤ (sumAt s' m p).epoch ∧ (sumAt s' m p).epoch ≤ s.currentCycle.epoch

/-- Only what the books do not read of a commitment has changed: the amount and the age of the
stake, the indices and the last slashed epoch are the same. -/
structure Adjusts (cm cm' : Commitment) : Prop where
  stake : cm'.stake.map (fun st => (st.amount, st.created)) =
    cm.stake.map (fun st => (st.amount, st.created))
  poolRewards : cm'.poolRewards = cm.poolRewards
  lastSlashingEpoch : cm'.lastSlashingEpoch = cm.lastSlashingEpoch

structure Retotals (cm cm' : Commitment) : Prop extends Agrees cm cm' where
  poolRewards : cm'.poolRewards = cm.poolRewards
  lastSlashingEpoch : cm'.lastSlashingEpoch = cm.lastSlashingEpoch
  lastScoringEpoch : cm'.lastScoringEpoch = cm.lastScoringEpoch

def RewardSettled (index : Option (ℕ × PoolReward)) (d : Delegation) : Prop :=
  ∀ e ∈ index, d.rewardDebt = Accrual.ceilDebt perTokenDecimals d.rewardWeight e.2.rewardPerWeight

def SlashSettled (index : Option (ℕ × PoolReward)) (d : Delegation) : Prop :=
  ∀ e ∈ index, d.slashDebt = d.slashWeight * e.2.slashPerWeight / perTokenDecimals

structure Accrues (e : ℕ × PoolReward) (reward slash : ℕ) (d d' : Delegation) : Prop where
  created : d'.stake.created = d.stake.created
  amount : d'.stake.amount = d.stake.amount
  reward_eq : reward = Accrual.due perTokenDecimals d.rewardWeight e.2.rewardPerWeight d.rewardDebt
  slash_eq : d.slashDebt + slash = d.slashWeight * e.2.slashPerWeight / perTokenDecimals
  accruedReward : d'.stake.accruedReward = d.stake.accruedReward + reward
  rewardSettled : RewardSettled (some e) d'
  slashWeight : d'.slashWeight = d.slashWeight
  slashSettled : SlashSettled (some e) d'

structure Revises (index : Option (ℕ × PoolReward)) (lost : ℕ) (d d' : Delegation) : Prop where
  created : d'.stake.created = d.stake.created
  amount : d'.stake.amount + lost = d.stake.amount
  accruedReward : d'.stake.accruedReward = d.stake.accruedReward
  reward : (d'.rewardWeight = d.rewardWeight ∧ d'.rewardDebt = d.rewardDebt) ∨ RewardSettled index d'
  slash : (d'.slashWeight = d.slashWeight ∧ d'.slashDebt = d.slashDebt) ∨ SlashSettled index d'

structure Joins (index : Option (ℕ × PoolReward)) (d : Delegation) : Prop where
  accruedReward : d.stake.accruedReward = 0
  rewardSettled : RewardSettled index d
  slashSettled : SlashSettled index d

structure Stakes (old : Option Commitment) (cm : Commitment) (stake : Stake) : Prop where
  unstaked : old.bind (·.stake) = none
  stake_eq : cm.stake = some stake
  poolRewards : openPoolRewards old stake.created = .ok cm.poolRewards
  lastSlashingEpoch : cm.lastSlashingEpoch = old.elim 0 (·.lastSlashingEpoch)
  lastScoringEpoch : cm.lastScoringEpoch = old.elim 0 (·.lastScoringEpoch)

structure Credits (weight reward : ℕ) (stake : Stake) (cm cm' : Commitment) : Prop where
  staked : cm.stake = some stake
  stake_eq : cm'.stake.map (fun st => (st.amount, st.created)) = some (stake.amount, stake.created)
  poolRewards : raiseRewardIndex cm.poolRewards stake.created weight reward = .ok cm'.poolRewards
  lastSlashingEpoch : cm'.lastSlashingEpoch = cm.lastSlashingEpoch
  agrees : Agrees cm cm'

structure Marks (lastEpoch : ℕ) (increase : Option ℕ) (cm cm' : Commitment) : Prop where
  stake : cm'.stake = cm.stake
  poolRewards : cm'.poolRewards = cm.poolRewards ∨ ∃ stake, cm.stake = some stake ∧
    cm.poolRewards.mutate stake.created (fun r =>
      { r with slashPerWeight := saturatingAdd 256 r.slashPerWeight (increase.getD 0) }) =
      some cm'.poolRewards
  lastSlashingEpoch : cm'.lastSlashingEpoch = lastEpoch
  lastScoringEpoch : cm'.lastScoringEpoch = cm.lastScoringEpoch
  agrees : Agrees cm cm'

/-- The moves that not every invariant allows: a second payment of a reward, a slash of more than
the stake, raises of the slash and the reward index, another manager behind a commitment, anything
that the heartbeats keep, and some amendments. -/
inductive Special where
  | repay | overslash | slash | credit | reback | measure
  | clause (k : Clause)
  deriving DecidableEq

theorem Aside.clock (h : Aside s s') : Clock s s' where
  started := fun hs => ⟨by rw [h.currentCycle, h.blockNumber]; exact hs.zero, h.currentCycle ▸ hs.lt⟩
  epoch_le := fun _ => h.currentCycle ▸ le_refl _
  sums := fun m p hl => by simp only [sumAt, h.metricsEpochSum] at hl ⊢; exact ⟨le_rfl, hl⟩

theorem Aside.of_eq (h : (s'.commitments, s'.lastCommissionIncrease, s'.backings, s'.delegations,
      s'.totalStake, s'.history, s'.blockNumber, s'.currentCycle, s'.metricsEpochSum) =
    (s.commitments, s.lastCommissionIncrease, s.backings, s.delegations, s.totalStake, s.history,
      s.blockNumber, s.currentCycle, s.metricsEpochSum)) : Aside s s' := by
  simp only [Prod.mk.injEq] at h
  obtain ⟨hc, hl, hb, hd, ht, hh, hn, hy, hm⟩ := h
  exact ⟨⟨hc, hl, hb, hd, ht, hh⟩, hn, hy, hm⟩

theorem Retotals.adjusts (h : Retotals cm cm') : Adjusts cm cm' := by
  refine ⟨?_, h.poolRewards, h.lastSlashingEpoch⟩
  have ht := congrArg (Option.map fun terms => (terms.1, terms.2.2.1)) h.stake
  rw [Option.map_map, Option.map_map] at ht
  exact ht

theorem indexAt_insert (hc : s.commitments.lookup c = some cm)
    (hs : s'.commitments = s.commitments.insert c cm') (hp : cm'.poolRewards = cm.poolRewards) :
    indexAt s' = indexAt s := by
  funext c' created
  simp only [indexAt, hs, lookup_insert_eq]
  split_ifs with h
  · rw [h, hc, Option.bind_some, Option.bind_some, hp]
  · rfl

variable [DecidableEq A]

inductive Move (allow : Special → Prop) : State T → State T → Prop
  | rest {s s' : State T} (books : SameBooks s s') (clock : Clock s s')
      (block : s'.blockNumber = s.blockNumber ∨ s'.blockNumber = s.blockNumber + 1)
      (kept : s'.fixed = s.fixed ∨ allow .measure) : Move allow s s'
  | adjust {s : State T} {c : CommitmentId} {cm cm' : Commitment}
      {lastCommissionIncrease : StorageMap CommitmentId (ℕ × Perbill)}
      (found : s.commitments.lookup c = some cm) (adjusts : Adjusts cm cm')
      (amends : Amends T (allow ∘ .clause) s.terms { s.terms with
        commitments := s.commitments.insert c cm', lastCommissionIncrease })
      (scored : cm'.lastScoringEpoch = cm.lastScoringEpoch ∨ allow .measure) :
      Move allow s { s with commitments := s.commitments.insert c cm', lastCommissionIncrease }
  | accrue {s : State T} {who : A} {c : CommitmentId} {d d' : Delegation} {e : ℕ × PoolReward}
      {reward slash : ℕ} (delegated : s.delegations.lookup (who, c) = some d)
      (index : indexAt s c d.stake.created = some e) (accrues : Accrues e reward slash d d')
      (tends : Tends T d.stake d'.stake) :
      Move allow s { s with
        delegations := s.delegations.insert (who, c) d'
        history := .accrued who c e.1 reward slash :: s.history }
  | revise {s : State T} {who : A} {c : CommitmentId} {d d' : Delegation} {lost : ℕ}
      (delegated : s.delegations.lookup (who, c) = some d) (covered : lost ≤ s.totalStake)
      (revises : Revises (indexAt s c d.stake.created) lost d d') (tends : Tends T d.stake d'.stake) :
      Move allow s { s with
        delegations := s.delegations.insert (who, c) d'
        totalStake := s.totalStake - lost }
  | payout {s : State T} {who : A} {c : CommitmentId} {d : Delegation} {paid : ℕ}
      (delegated : s.delegations.lookup (who, c) = some d) :
      Move allow s { s with
        delegations := s.delegations.insert (who, c)
          { d with stake := { d.stake with accruedReward := 0, paid } }
        history := .paid who c d.stake.accruedReward :: .withdrew who c d.stake.accruedReward ::
          s.history }
  | close {s : State T} {who : A} {c : CommitmentId} {d : Delegation}
      (delegated : s.delegations.lookup (who, c) = some d) (paidOut : d.stake.accruedReward = 0)
      (covered : d.stake.amount ≤ s.totalStake) :
      Move allow s { s with
        delegations := s.delegations.erase (who, c)
        totalStake := s.totalStake - d.stake.amount }
  | join {s : State T} {who : A} {c : CommitmentId} {d : Delegation}
      (free : s.delegations.lookup (who, c) = none)
      (joins : Joins (indexAt s c d.stake.created) d)
      (amends : Amends T (allow ∘ .clause) s.terms { s.terms with
        delegations := s.delegations.insert (who, c) d }) :
      Move allow s { s with
        delegations := s.delegations.insert (who, c) d
        totalStake := s.totalStake + d.stake.amount }
  | stake {s : State T} {c : CommitmentId} {cm : Commitment} {stake : Stake}
      (stakes : Stakes (s.commitments.lookup c) cm stake)
      (amends : Amends T (allow ∘ .clause) s.terms { s.terms with
        commitments := s.commitments.insert c cm }) :
      Move allow s { s with
        commitments := s.commitments.insert c cm
        totalStake := s.totalStake + stake.amount }
  | raise {s : State T} {c : CommitmentId} {cm cm' : Commitment} {stake : Stake} {extra : ℕ}
      (found : s.commitments.lookup c = some cm) (staked : cm.stake = some stake)
      (raised : cm'.stake.map (fun st => (st.amount, st.created)) =
        some (stake.amount + extra, stake.created))
      (poolRewards : cm'.poolRewards = cm.poolRewards)
      (lastSlashingEpoch : cm'.lastSlashingEpoch = cm.lastSlashingEpoch)
      (amends : Amends T (allow ∘ .clause) s.terms { s.terms with
        commitments := s.commitments.insert c cm' })
      (scored : cm'.lastScoringEpoch = cm.lastScoringEpoch) :
      Move allow s { s with
        commitments := s.commitments.insert c cm'
        totalStake := s.totalStake + extra }
  | unstake {s : State T} {c : CommitmentId} {cm cm' : Commitment} {stake : Stake}
      (found : s.commitments.lookup c = some cm) (staked : cm.stake = some stake)
      (unstaked : cm'.stake = none) (poolRewards : cm'.poolRewards = cm.poolRewards)
      (lastSlashingEpoch : cm'.lastSlashingEpoch = cm.lastSlashingEpoch)
      (covered : stake.amount ≤ s.totalStake)
      (amends : Amends T (allow ∘ .clause) s.terms { s.terms with
        commitments := s.commitments.insert c cm' })
      (scored : cm'.lastScoringEpoch = cm.lastScoringEpoch) :
      Move allow s { s with
        commitments := s.commitments.insert c cm'
        totalStake := s.totalStake - stake.amount }
  | repay {s : State T} {who : A} {c : CommitmentId} {reward : ℕ}
      (allowed : reward = 0 ∨ allow .repay) :
      Move allow s { s with history := .paid who c reward :: s.history }
  | lowerStake {s : State T} {c : CommitmentId} {cm cm' : Commitment} {stake : Stake} {lost : ℕ}
      (found : s.commitments.lookup c = some cm) (staked : cm.stake = some stake)
      (lowered : cm'.stake.map (fun st => (st.amount, st.created)) =
        some (stake.amount - lost, stake.created))
      (poolRewards : cm'.poolRewards = cm.poolRewards)
      (lastSlashingEpoch : cm'.lastSlashingEpoch = cm.lastSlashingEpoch)
      (covered : lost ≤ s.totalStake) (allowed : lost ≤ stake.amount ∨ allow .overslash)
      (amends : Amends T (allow ∘ .clause) s.terms { s.terms with
        commitments := s.commitments.insert c cm' })
      (scored : cm'.lastScoringEpoch = cm.lastScoringEpoch) :
      Move allow s { s with
        commitments := s.commitments.insert c cm'
        totalStake := s.totalStake - lost }
  | reback {s : State T} {backings : StorageMap CommitmentId ManagerId} (allowed : allow .reback) :
      Move allow s { s with backings }
  | noteSlash {s : State T} {who : A} {c : CommitmentId} {amount : ℕ} :
      Move allow s { s with history := .slashed c who amount :: s.history }
  | mark {s : State T} {c : CommitmentId} {cm cm' : Commitment} {lastEpoch : ℕ} {increase : Option ℕ}
      {charges : List (PoolId × ℕ)} (found : s.commitments.lookup c = some cm)
      (marks : Marks lastEpoch increase cm cm') (allowed : allow .slash) :
      Move allow s { s with
        commitments := s.commitments.insert c cm'
        history := charges.map (fun p => .charged c p.1 lastEpoch p.2) ++ s.history }
  | credit {s : State T} {c : CommitmentId} {cm cm' : Commitment} {stake : Stake} {weight reward : ℕ}
      (found : s.commitments.lookup c = some cm) (credits : Credits weight reward stake cm cm')
      (allowed : allow .credit) :
      Move allow s { s with
        commitments := s.commitments.insert c cm'
        history := .credited c stake.created reward :: s.history }

def Moves (allow : Special → Prop) : State T → State T → Prop :=
  Relation.ReflTransGen (Move allow)

variable {allow : Special → Prop} {s s' : State T} {c : CommitmentId}

variable {w : T.World} {s₁ s₂ s₃ : State T} {cm cm' : Commitment}

theorem Moves.refl (s : State T) : Moves allow s s := Relation.ReflTransGen.refl

theorem Moves.trans (h : Moves allow s₁ s₂) (h' : Moves allow s₂ s₃) : Moves allow s₁ s₃ :=
  Relation.ReflTransGen.trans h h'

theorem Moves.step (h : Move allow s₁ s₂) (h' : Moves allow s₂ s₃) : Moves allow s₁ s₃ :=
  Relation.ReflTransGen.head h h'

theorem Move.moves (h : Move allow s s') : Moves allow s s' := Relation.ReflTransGen.single h

theorem Aside.moves (h : Aside s s') (hk : s'.fixed = s.fixed ∨ allow .measure) :
    Moves allow s s' :=
  Move.moves (.rest h.toSameBooks h.clock (.inl h.blockNumber) hk)

theorem Moves.world (h : s' = { s with world := w }) : Moves allow s s' := by
  subst h
  exact Aside.moves (.of_eq rfl) (.inl rfl)

theorem Move.retotal (hf : s.commitments.lookup c = some cm) (h : Retotals cm cm') :
    Move allow s { s with commitments := s.commitments.insert c cm' } :=
  .adjust hf h.adjusts (.agree hf h.toAgrees) (.inl h.lastScoringEpoch)

theorem Moves.invariant {inv : State T → Prop} (hm : ∀ s s', Move allow s s' → inv s → inv s')
    (h : Moves allow s s') (hs : inv s) : inv s' := by
  induction h with
  | refl => exact hs
  | tail _ hl ih => exact hm _ _ hl ih

theorem Move.history_append (h : Move allow s s') : ∃ new, s'.history = new ++ s.history := by
  cases h with
  | rest hb hc => exact ⟨[], hb.history⟩
  | adjust | revise | close | join | stake | raise | unstake | lowerStake | reback => exact ⟨[], rfl⟩
  | accrue | repay | noteSlash | credit => exact ⟨[_], rfl⟩
  | payout => exact ⟨[_, _], rfl⟩
  | mark => exact ⟨_, rfl⟩

theorem Move.terms (h : Move allow s s') : Amendments T (allow ∘ .clause) s.terms s'.terms := by
  cases h with
  | rest hb hcl ho =>
    simp only [State.terms, hb.commitments, hb.delegations, hb.lastCommissionIncrease]
    rcases ho with hbl | hbl
    · rw [hbl]
      exact .refl
    · rw [hbl]
      exact Amends.single .tick
  | adjust hf had ha => exact ha.single
  | accrue hd hn hac ht => exact Amends.single (.tend hd ht)
  | revise hd hc hr ht => exact Amends.single (.tend hd ht)
  | payout hd => exact Amends.single (.tend hd ⟨rfl, rfl, .inl rfl⟩)
  | close => exact Amends.single .leave
  | join free hj ha => exact ha.single
  | stake hst ha => exact ha.single
  | raise hf hs hra hp hl ha => exact ha.single
  | unstake hf hs hu hp hl hc ha => exact ha.single
  | lowerStake hf hs hlo hp hl hc hal ha =>
    exact ha.single
  | repay | reback | noteSlash => exact .refl
  | mark hf hm => exact Amends.single (.agree hf hm.agrees)
  | credit hf hcr => exact Amends.single (.agree hf hcr.agrees)

theorem Moves.terms (h : Moves allow s s') : Amendments T (allow ∘ .clause) s.terms s'.terms := by
  induction h with
  | refl => exact .refl
  | tail _ hl ih => exact ih.trans hl.terms

theorem Move.fixed (h : Move allow s s') (hme : ¬ allow .measure) (hcr : ¬ allow .credit)
    (hre : ¬ allow .reback) : s'.fixed = s.fixed := by
  cases h with
  | rest hb hcl hbl kept => exact kept.resolve_right hme
  | adjust hf hd ham hs =>
    exact fixed_insert_of_found hf (hs.resolve_right hme)
  | accrue | revise | payout | close | join | repay | noteSlash => rfl
  | stake hsta => exact fixed_insert hsta.lastScoringEpoch
  | raise hf ht hr hp hl ham hs =>
    exact fixed_insert_of_found hf hs
  | unstake hf ht hu hp hl hc ham hs =>
    exact fixed_insert_of_found hf hs
  | lowerStake hf ht ho hp hl hc ha ham hs =>
    exact fixed_insert_of_found hf hs
  | reback ha => exact absurd ha hre
  | mark hf hm => exact fixed_insert_of_found hf hm.lastScoringEpoch
  | credit hf hcre ha => exact absurd ha hcr

theorem Moves.fixed (h : Moves allow s s') (hm : ¬ allow .measure) (hc : ¬ allow .credit)
    (hr : ¬ allow .reback) : s'.fixed = s.fixed := by
  induction h with
  | refl => rfl
  | tail _ hl ih => exact (hl.fixed hm hc hr).trans ih

theorem Move.tally_le (h : Move allow s s') (f : Entry A → ℕ) : tally f s ≤ tally f s' := by
  obtain ⟨new, hn⟩ := h.history_append
  rw [tally, tally, hn, List.map_append, List.sum_append]
  exact Nat.le_add_left _ _

end Acurast.Compute
