import Acurast.Compute.LiveTotals

/-! A commitment's current weights are the sums over its live delegations, whatever is slashed. So no
subtraction from them is cut off at zero. -/

namespace Acurast.Compute

open Base

variable {A : Type} [DecidableEq A] {T : Config A} {s s' : State T} {q : Quantity}

theorem Small.fits (hs : Small s) (hc : s.delegations.entries.length < 2 ^ 128)
    (hw : q.width = 256) : Fits q s := by
  intro c cm st hm ht
  have hl : liveSum s.delegations q c st.created ≤ s.delegations.entries.length * (2 ^ 128 - 1) := by
    refine StorageMap.sum_le_length_mul fun k d hd => ?_
    split_ifs
    · exact Nat.le_sub_one_of_lt (hs k d hd q)
    · exact Nat.zero_le _
  rw [hw]
  calc liveSum s.delegations q c st.created ≤ s.delegations.entries.length * (2 ^ 128 - 1) := hl
    _ ≤ 2 ^ 128 * (2 ^ 128 - 1) := Nat.mul_le_mul_right _ hc.le
    _ < 2 ^ 256 := by norm_num

/-- What is subtracted from the delegations' reward and slash weight of a commitment by each
function that does so: the correction of a rewardable amount, a slash, a cooldown and the end of a
delegation. -/
inductive Subtracts (s : State T) (c : CommitmentId) : CommitmentWeights → ℕ → ℕ → Prop
  | sanitizeDelegation {who : A} {cm : Commitment} {d : Delegation} {newRewardWeight : ℕ}
      (found : s.commitments.lookup c = some cm) (delegated : s.delegations.lookup (who, c) = some d)
      (above : ¬ d.stake.rewardableAmount ≤ d.stake.amount)
      (weight : weightOf T (rewardableOf T d.stake d.stake.amount) d.stake.cooldownPeriod =
        .ok newRewardWeight) :
      Subtracts s c cm.weights.current.2 (d.rewardWeight - newRewardWeight) 0
  | decreaseCommitment {who : A} {cm : Commitment} {stake : Stake} {d d' : Delegation}
      {amount rewardableAmount rewardWeightDiff slashWeightDiff : ℕ}
      (found : s.commitments.lookup c = some cm) (staked : cm.stake = some stake)
      (delegated : s.delegations.lookup (who, c) = some d)
      (reweighed : reweighLive T cm stake
        { d with stake := { d.stake with amount, rewardableAmount } } =
        .ok (d', rewardWeightDiff, slashWeightDiff)) :
      Subtracts s c cm.weights.current.2 rewardWeightDiff slashWeightDiff
  | startDelegationCooldown {who : A} {cm : Commitment} {stake : Stake} {d : Delegation}
      {rewardWeight rewardWeightDiff : ℕ} (found : s.commitments.lookup c = some cm)
      (staked : cm.stake = some stake) (delegated : s.delegations.lookup (who, c) = some d)
      (live : stake.created ≤ d.stake.created)
      (diff : checkedSub d.rewardWeight rewardWeight = some rewardWeightDiff) :
      Subtracts s c cm.weights.current.2 rewardWeightDiff 0
  | leaveCommitment {who : A} {cm : Commitment} {stake : Stake} {d : Delegation}
      (found : s.commitments.lookup c = some cm) (staked : cm.stake = some stake)
      (delegated : s.delegations.lookup (who, c) = some d) (live : stake.created ≤ d.stake.created) :
      Subtracts s c cm.weights.current.2 d.rewardWeight d.slashWeight

variable {c : CommitmentId}

theorem Counts.weight_le {who : A} {cm : Commitment} {st : Stake} {d : Delegation}
    (hr : Counts .rewardWeight s) (hsl : Counts .slashWeight s)
    (hc : s.commitments.lookup c = some cm) (hs : cm.stake = some st)
    (hd : s.delegations.lookup (who, c) = some d) (hl : st.created ≤ d.stake.created) :
    d.rewardWeight ≤ cm.weights.current.2.delegationsRewardWeight ∧
      d.slashWeight ≤ cm.weights.current.2.delegationsSlashWeight :=
  ⟨(quantity_le_liveSum hd hl).trans (hr c cm st hc hs).ge,
    (quantity_le_liveSum hd hl).trans (hsl c cm st hc hs).ge⟩

theorem Subtracts.le {w : CommitmentWeights} {x y : ℕ} (h : Subtracts s c w x y) (hs : Regular s)
    (hre : Counts .rewardWeight s) (hsl : Counts .slashWeight s) :
    x ≤ w.delegationsRewardWeight ∧ y ≤ w.delegationsSlashWeight := by
  cases h with
  | @sanitizeDelegation who cm d newRewardWeight hf hd ha =>
    -- a stored rewardable amount is never above the amount
    rw [hs _ d hd] at ha
    exact absurd (rewardableOf_le _ _) ha
  | @decreaseCommitment who cm st d d' amt rewardableAmount _ _ hf ht hd hw =>
    obtain ⟨hx, hy, hst⟩ := reweighLive_weights hw
    dsimp only at hx hy hst
    rcases Nat.lt_or_ge d.stake.created st.created with hlt | hle
    · obtain ⟨rfl, rfl⟩ := hst hlt
      exact ⟨Nat.zero_le _, Nat.zero_le _⟩
    · obtain ⟨hr, hl⟩ := hre.weight_le hsl hf ht hd hle
      exact ⟨by omega, by omega⟩
  | @startDelegationCooldown who cm st d rewardWeight _ hf ht hd live diff =>
    obtain ⟨hr, -⟩ := hre.weight_le hsl hf ht hd live
    obtain ⟨-, rfl⟩ := checkedSub_eq_some.mp diff
    exact ⟨(Nat.sub_le _ _).trans hr, Nat.zero_le _⟩
  | leaveCommitment hf ht hd live =>
    exact hre.weight_le hsl hf ht hd live

def SparesWeights {A : Type} (i : Notable A) : Prop :=
  i ≠ .sameBlock ∧ i ≠ .overflow .rewardWeight ∧ i ≠ .overflow .slashWeight

theorem step_postings_sparesWeights (s : State T) (op : Op T) (hs : Regular s) (hm : Small s)
    (ha : Aged s) (hc : (step s op).delegations.entries.length < 2 ^ 128) :
    Postings SparesWeights s (step s op) := by
  have hs' : Small (step s op) :=
    (step_postings_any s op hs).small hm
  have ho : ∀ q, Fits q (step s op) ∨ SparesWeights (A := A) (.overflow q) := by
    intro q
    cases q with
    | amount | rewardableAmount => exact .inr (by simp [SparesWeights])
    | rewardWeight | slashWeight => exact .inl (hs'.fits hc rfl)
  apply step_postings s op hs
  exact ⟨.inr (by simp [SparesWeights]), ho, .inl ha,
    fun _ _ => .inr (by simp [SparesWeights]), fun _ _ => by simp [SparesWeights],
    .inr (by simp [SparesWeights]), .inr (by simp [SparesWeights])⟩

/-- In every run that ends before the last block number and never holds `2 ^ 128` delegations: the
current weights of every staked commitment are the sums over its live delegations, and no function
ever subtracts more from them than they hold. -/
theorem weights_eq_liveSum (hmin : 0 < T.minCooldownPeriod) (w : T.World) (ops : List (Op T))
    (hrun : Along step (fun s op => (step s op).delegations.entries.length < 2 ^ 128)
      (State.genesis T w) ops)
    (hlast : (reached w ops).blockNumber < 2 ^ 32 - 1) :
    (∀ c cm stake, (reached w ops).commitments.lookup c = some cm →
      cm.stake = some stake →
      cm.weights.current.2.delegationsRewardWeight =
          liveSum (reached w ops).delegations .rewardWeight c stake.created ∧
        cm.weights.current.2.delegationsSlashWeight =
          liveSum (reached w ops).delegations .slashWeight c stake.created) ∧
      ∀ s, Within (reached w ops) s → ∀ c weights x y, Subtracts s c weights x y →
        x ≤ weights.delegationsRewardWeight ∧ y ≤ weights.delegationsSlashWeight := by
  have ht : ∀ (s : State T) (op : Op T), (step s op).delegations.entries.length < 2 ^ 128 →
      Regular s → Small s → Aged s → Postings SparesWeights s (step s op) :=
    fun s op ho hs hm ha => step_postings_sparesWeights s op hs hm ha ho
  obtain ⟨hd, hr⟩ := run_counts (q := .rewardWeight) ht (by simp) (by simp [SparesWeights])
    (by simp [SparesWeights]) hmin hrun hlast
  obtain ⟨-, hl⟩ := run_counts (q := .slashWeight) ht (by simp) (by simp [SparesWeights])
    (by simp [SparesWeights]) hmin hrun hlast
  refine ⟨fun c cm stake hc hst => ⟨hr c cm stake hc hst, hl c cm stake hc hst⟩,
    fun s hw c weights x y hu => ?_⟩
  have hre := run_regular T w ops
  have hn : Postings SparesWeights (reached w ops) s ∧
      s.blockNumber = (reached w ops).blockNumber :=
    hw.postings hre (by simp [SparesWeights])
  obtain ⟨hp, hb⟩ := hn
  have hl' : s.blockNumber < 2 ^ 32 - 1 := hb ▸ hlast
  exact hu.le (hp.regular hre)
    (hp.counts (by simp) (by simp [SparesWeights]) (by simp [SparesWeights]) hmin hl' hd hr)
    (hp.counts (by simp) (by simp [SparesWeights]) (by simp [SparesWeights]) hmin hl' hd hl)

theorem weights_of_staleWithdrawal : ∃ cm stake,
    (after staleWithdrawal).commitments.lookup 0 = some cm ∧
      cm.stake = some stake ∧ cm.weights.current.2.delegationsSlashWeight = liveSum
        (after staleWithdrawal).delegations .slashWeight 0 stake.created := by
  have hr : Along step (fun s op => (step s op).delegations.entries.length < 2 ^ 128)
      (State.genesis mock []) staleWithdrawal := by decide +kernel
  have hl : (after staleWithdrawal).blockNumber < 2 ^ 32 - 1 := by
    decide +kernel
  have ht : ((after staleWithdrawal).commitments.lookup 0).bind
      (·.stake) ≠ none := by decide +kernel
  obtain ⟨stake, hb⟩ := Option.ne_none_iff_exists'.mp ht
  obtain ⟨cm, hc, hs⟩ := Option.bind_eq_some_iff.mp hb
  exact ⟨cm, stake, hc, hs, ((weights_eq_liveSum (T := mock) (by decide) [] staleWithdrawal hr
    hl).1 0 cm stake hc hs).2⟩

def longEpochs : Config ℕ := { mock with epoch := 2 ^ 31 - 1, epoch_pos := by decide }

theorem onInitialize_longEpochs {s : State longEpochs} (hs : s.currentCycle.epochStart ≠ 0)
    (hm : (s.blockNumber + 1 - s.currentCycle.epochStart) % longEpochs.epoch ≠ 0) :
    onInitialize s = { s with blockNumber := s.blockNumber + 1 } := by
  have hc : ∀ s : State longEpochs, rewardCollator s = s := by
    intro s
    unfold rewardCollator
    split_ifs <;> rfl
  simp only [onInitialize, if_neg hs, if_neg hm, hc]

theorem run_longEpochs {s : State longEpochs} (hs : s.currentCycle.epochStart ≠ 0) (n : ℕ)
    (hl : s.currentCycle.epochStart ≤ s.blockNumber)
    (hm : s.blockNumber - s.currentCycle.epochStart + n < longEpochs.epoch) :
    run step s (List.replicate n .block) = { s with blockNumber := s.blockNumber + n } := by
  induction n generalizing s with
  | zero => rfl
  | succ n ih =>
    have ht : s.blockNumber + 1 - s.currentCycle.epochStart < longEpochs.epoch := by omega
    have hb : step s .block = { s with blockNumber := s.blockNumber + 1 } := by
      apply onInitialize_longEpochs hs
      rw [Nat.mod_eq_of_lt ht]
      omega
    rw [List.replicate_succ, run_cons, hb, ih]
    · rw [Nat.add_assoc, Nat.add_comm 1 n]
    · exact hs
    · exact Nat.le_succ_of_le hl
    · show s.blockNumber + 1 - s.currentCycle.epochStart + n < longEpochs.epoch
      omega

def quietBlocks : ℕ := 2 ^ 31 - 2

def firstBlock : List (Op longEpochs) :=
  [newPool 0 100, signed 2 (.offerBacking 1), signed 1 (.acceptBackingOffer 2), .block]

def middleBlock : List (Op longEpochs) := [.block, beat]

/-- In the block with the last number a stake is made, delegated to, ended and made anew: the end of
its cooldown saturates, so it is over when it starts. -/
def lastBlock : List (Op longEpochs) :=
  [.block, signed 2 stakeCall, signed 4 (.delegate 2 (50 * unit) 36 false),
    signed 2 .cooldownComputeCommitment, signed 2 .endComputeCommitment, signed 2 stakeCall]

def atLastBlock (ops : List (Op longEpochs)) : List (Op longEpochs) :=
  firstBlock ++ List.replicate quietBlocks .block ++ middleBlock ++
    List.replicate quietBlocks .block ++ ops

def lastBlockRun : List (Op longEpochs) := atLastBlock lastBlock

def middleState : State longEpochs :=
  let first := run step (State.genesis longEpochs []) firstBlock
  run step { first with blockNumber := first.blockNumber + quietBlocks } middleBlock

theorem run_atLastBlock (ops : List (Op longEpochs)) :
    run step (State.genesis longEpochs []) (atLastBlock ops) =
      run step { middleState with blockNumber := middleState.blockNumber + quietBlocks } ops := by
  have hf := run_longEpochs (s := run step (State.genesis longEpochs []) firstBlock)
    (by decide +kernel) quietBlocks (by decide +kernel) (by decide +kernel)
  have hm := run_longEpochs (s := middleState) (by decide +kernel) quietBlocks (by decide +kernel)
    (by decide +kernel)
  rw [atLastBlock, run_append, run_append, run_append, run_append, hf]
  exact congrArg (run step · ops) hm

def storedAndLiveWeight (s : State longEpochs) (c : CommitmentId) : Option (ℕ × ℕ) :=
  (s.commitments.lookup c).bind fun cm => cm.stake.map fun stake =>
    (cm.weights.current.2.delegationsSlashWeight, liveSum s.delegations .slashWeight c stake.created)

/-- The delegation to the stake that ended is as young as the new stake, and not in its weights. -/
theorem storedAndLiveWeight_of_lastBlockRun : 0 < longEpochs.minCooldownPeriod ∧
      (run step (State.genesis longEpochs []) lastBlockRun).blockNumber = 2 ^ 32 - 1 ∧
      storedAndLiveWeight (run step (State.genesis longEpochs []) lastBlockRun) 0 =
        some (0, 16666666666666) := by
  rw [lastBlockRun, run_atLastBlock]
  decide +kernel

end Acurast.Compute
