import Acurast.Compute.Slash

/-! A heartbeat: it counts metrics for the current epoch, and at most once an epoch it raises the
reward index of the backing commitment. -/

namespace Acurast.Compute

open Base

variable {A : Type} {T : Config A} {s s' s₁ s₂ s₃ : State T}

structure Counted (s s' : State T) : Prop where
  writes : ∃ metrics metricPools metricsEpochSum, s' = { s with metrics, metricPools, metricsEpochSum }
  sums : ∀ m p, (sumAt s m p).epoch ≤ s.currentCycle.epoch →
    (sumAt s m p).epoch ≤ (sumAt s' m p).epoch ∧ (sumAt s' m p).epoch ≤ s.currentCycle.epoch

theorem Counted.refl (s : State T) : Counted s s :=
  ⟨⟨_, _, _, rfl⟩, fun _ _ hl => ⟨le_rfl, hl⟩⟩

theorem Counted.metrics (h : Counted s s₁) (metrics : StorageMap (A × PoolId) MetricCommit) :
    Counted s { s₁ with metrics } := by
  obtain ⟨_, pools, sums, rfl⟩ := h.writes
  exact ⟨⟨metrics, pools, sums, rfl⟩, h.sums⟩

theorem updateMetricsEpochSum_writes (s : State T) (m : ManagerId) (p : PoolId) (metric : Metric)
    (bonus : Bool) : ∃ metricPools f, (updateMetricsEpochSum s m p metric bonus).1 = { s with
      metricPools
      metricsEpochSum := s.metricsEpochSum.insert (m, p)
        ((sumAt s m p).mutate s.currentCycle.epoch f false) } := by
  unfold updateMetricsEpochSum
  cases s.metricPools.lookup p with
  | none => exact ⟨_, _, rfl⟩
  | some pool => exact ⟨_, _, rfl⟩

theorem Counted.count (h : Counted s s₁) (m : ManagerId) (p : PoolId) (metric : Metric)
    (bonus : Bool) : Counted s (updateMetricsEpochSum s₁ m p metric bonus).1 := by
  obtain ⟨pools, f, hq⟩ := updateMetricsEpochSum_writes s₁ m p metric bonus
  obtain ⟨ms, _, sums, rfl⟩ := h.writes
  rw [hq]
  refine ⟨⟨ms, pools, _, rfl⟩, fun m' p' hle => ?_⟩
  obtain ⟨hl', hl⟩ := h.sums m' p' hle
  simp only [sumAt, getD_insert]
  split_ifs with hk
  · obtain ⟨rfl, rfl⟩ := Prod.mk.inj hk
    have hp := SlidingBuffer.epoch_mutate hl f false
    exact ⟨(hl'.trans hl).trans hp.ge, hp.le⟩
  · exact ⟨hl', hl⟩

def Rates (s s' : State T) : Prop := ∃ scores stakeBasedRewards, s' = { s with scores, stakeBasedRewards }

theorem Rates.refl (s : State T) : Rates s s := ⟨_, _, rfl⟩

theorem Rates.trans (h : Rates s₁ s₂) (h' : Rates s₂ s₃) : Rates s₁ s₃ := by
  obtain ⟨_, _, rfl⟩ := h
  obtain ⟨scores, budgets, rfl⟩ := h'
  exact ⟨scores, budgets, rfl⟩

variable {c : CommitmentId} {m : ManagerId}

theorem scorePool_rates {epoch : ℕ} {weights : CommitmentWeights} {p : PoolId} {x y : Metric}
    (h : scorePool s epoch c weights p x y = .ok s') : Rates s s' := by
  simp only [scorePool, ok_iff, whenSome_eq_ok, Prod.exists] at h
  obtain ⟨bonus, -, ⟨-, rfl⟩ | ⟨committed, -, score, scoreWithBonus, -, rfl⟩⟩ := h
  · exact .refl s
  · exact ⟨_, _, rfl⟩

theorem scorePools_rates (epoch : ℕ) (c : CommitmentId) (weights : CommitmentWeights) (s : State T)
    (sums : List (PoolId × Metric × Metric)) : Rates s (scorePools epoch c weights s sums) := by
  induction sums generalizing s with
  | nil => exact .refl s
  | cons entry rest ih =>
    unfold scorePools
    split
    · next s₁ h => exact (scorePool_rates h).trans (ih s₁)
    · exact .refl s

theorem distributePool_stake (epoch : ℕ) (rate : Perbill) (weights : CommitmentWeights)
    (score scoreWithBonus : ℕ) (p : PoolId) (d : Distribution) : ∃ accruedReward,
      (distributePool epoch rate weights score scoreWithBonus p d).1.committerStake =
        { d.committerStake with accruedReward } := by
  unfold distributePool
  dsimp only
  split_ifs
  · exact ⟨_, rfl⟩
  · split
    · exact ⟨_, rfl⟩
    · split
      · exact ⟨_, rfl⟩
      · split
        · exact ⟨_, rfl⟩
        · exact ⟨_, rfl⟩

theorem distributePools_stake (s : State T) (epoch : ℕ) (c : CommitmentId) (rate : Perbill)
    (weights : CommitmentWeights) (pools : List PoolId) (d : Distribution) : ∃ accruedReward,
      (distributePools s epoch c rate weights pools d).1.committerStake =
        { d.committerStake with accruedReward } := by
  induction pools generalizing d with
  | nil => exact ⟨_, rfl⟩
  | cons p rest ih =>
    unfold distributePools
    dsimp only
    split
    · next d₁ h =>
      obtain ⟨x, hx⟩ := h ▸ distributePool_stake epoch rate weights _ _ p d
      obtain ⟨y, hy⟩ := ih d₁
      exact ⟨y, by rw [hy, hx]⟩
    · next d₁ h => exact h ▸ distributePool_stake epoch rate weights _ _ p d

/-- A commitment after it was distributed to and scored, with what is noted: the committer's accrued
reward, if there is a stake, and the raise of its reward index, if there was something to spread. -/
inductive Scored (epoch weight : ℕ) (c : CommitmentId) (cm : Commitment) :
    Commitment → List (Entry A) → Prop
  | idle (unstaked : cm.stake = none) :
      Scored epoch weight c cm { cm with lastScoringEpoch := epoch } []
  | accrued {stake : Stake} {reward : ℕ} (staked : cm.stake = some stake) :
      Scored epoch weight c cm { cm with
        stake := some { stake with accruedReward := reward }
        lastScoringEpoch := epoch } []
  | credited {stake : Stake} {reward credit : ℕ} {raised : MemoryBuffer ℕ PoolReward}
      (staked : cm.stake = some stake)
      (raise : raiseRewardIndex cm.poolRewards stake.created weight credit = .ok raised) :
      Scored epoch weight c cm { cm with
        stake := some { stake with accruedReward := reward }
        lastScoringEpoch := epoch
        poolRewards := raised } [.credited c stake.created credit]

section Scored

variable {epoch weight : ℕ} {c : CommitmentId} {cm cm' : Commitment} {entries es : List (Entry A)}

theorem Scored.lastScoringEpoch (h : Scored epoch weight c cm cm' es) :
    cm'.lastScoringEpoch = epoch := by
  cases h <;> rfl

theorem Scored.cases (h : Scored epoch weight c cm cm' es) :
    (Adjusts cm cm' ∧ Agrees cm cm' ∧ es = []) ∨ ∃ stake reward,
      Credits weight reward stake cm cm' ∧ es = [.credited c stake.created reward] := by
  cases h with
  | idle hu => exact .inl ⟨⟨rfl, rfl, rfl⟩, ⟨rfl, rfl, rfl, rfl⟩, rfl⟩
  | accrued hs =>
    exact .inl ⟨⟨by rw [hs]; rfl, rfl, rfl⟩, ⟨by rw [hs]; rfl, rfl, rfl, rfl⟩, rfl⟩
  | credited hs hr =>
    exact .inr ⟨_, _, ⟨hs, rfl, hr, rfl, by rw [hs]; rfl, rfl, rfl, rfl⟩, rfl⟩

variable {bonus : ℕ}

theorem applyDistribution_scored {accruedReward : ℕ} {d : Distribution} {done : Bool}
    {st : Stake} {raised : Result (MemoryBuffer ℕ PoolReward)}
    (h : applyDistribution s c { cm with lastScoringEpoch := epoch } st.created weight d done
      raised = (s', cm', bonus))
    (hr : raised = raiseRewardIndex cm.poolRewards st.created weight d.delegationsReward)
    (hs : cm.stake = some st) (hd : d.committerStake = { st with accruedReward }) :
    ∃ stakeBasedRewards es, Scored epoch weight c cm cm' es ∧
      s' = { s with stakeBasedRewards, payouts := d.payouts, history := es ++ s.history } := by
  unfold applyDistribution at h
  rw [hd] at h
  split_ifs at h
  · simp only [Prod.mk.injEq] at h
    obtain ⟨rfl, rfl, -⟩ := h
    exact ⟨_, _, .accrued hs, rfl⟩
  · simp only [Prod.mk.injEq] at h
    obtain ⟨rfl, rfl, -⟩ := h
    exact ⟨_, _, .accrued hs, rfl⟩
  · cases raised with
    | error e =>
      obtain ⟨rfl, rfl, -⟩ := h
      exact ⟨_, _, .accrued hs, rfl⟩
    | ok poolRewards =>
      obtain ⟨rfl, rfl, -⟩ := h
      exact ⟨_, _, .credited hs hr.symm, rfl⟩

theorem distribute_scored {last : ℕ} {pools : List PoolId}
    (h : distribute s last c { cm with lastScoringEpoch := epoch } pools = (s', cm', bonus)) :
    ∃ stakeBasedRewards payouts es,
      Scored epoch ((cm.weights.getLatest last).getD default).delegationsRewardWeight c cm cm' es ∧
      s' = { s with stakeBasedRewards, payouts, history := es ++ s.history } := by
  unfold distribute at h
  split at h
  · next hs =>
    obtain ⟨rfl, rfl, -⟩ := h
    exact ⟨_, _, _, .idle hs, rfl⟩
  · next st hs =>
    obtain ⟨accrued, hq⟩ := distributePools_stake s last c cm.commission
      ((cm.weights.getLatest last).getD default) pools
      ⟨s.stakeBasedRewards, st, 0, 0, s.payouts⟩
    obtain ⟨budgets, es, hsc, hq⟩ := applyDistribution_scored h rfl hs hq
    exact ⟨budgets, _, es, hsc, hq⟩

end Scored

/-- What the reward of a heartbeat writes: nothing, or it scores the commitment that backs the
manager, for the weight remembered of the epoch before. -/
inductive Rewarded (s : State T) (m : ManagerId) : State T → Prop
  | nothing : Rewarded s m s
  | scored {c : CommitmentId} {cm cm' : Commitment} {entries : List (Entry A)}
      {scores : StorageMap (CommitmentId × PoolId) (SlidingBuffer (ℕ × ℕ))}
      {stakeBasedRewards : StorageMap PoolId (SlidingBuffer RewardBudget)}
      {payouts : List (Payment (PoolId × ℕ))}
      (backing : s.backingLookup.lookup m = some c) (found : s.commitments.lookup c = some cm)
      (fresh : cm.lastScoringEpoch < s.currentCycle.epoch)
      (scored : Scored s.currentCycle.epoch (rememberedWeights s c).delegationsRewardWeight c cm cm'
        entries) :
      Rewarded s m { s with
        commitments := s.commitments.insert c cm'
        history := entries ++ s.history
        scores, stakeBasedRewards, payouts }

theorem rewardCommitment_eq {cm : Commitment} (pools : List PoolId)
    (sums : List (PoolId × Metric × Metric)) (hc : s.commitments.lookup c = some cm)
    (hf : cm.lastScoringEpoch < s.currentCycle.epoch) :
    ∃ cm' es budgets payouts,
      Scored s.currentCycle.epoch (rememberedWeights s c).delegationsRewardWeight c cm cm' es ∧
      budgets = (distribute s (s.currentCycle.epoch - 1) c
        { cm with lastScoringEpoch := s.currentCycle.epoch } pools).1.stakeBasedRewards ∧
      (rewardCommitment s c pools sums).1 = { scorePools s.currentCycle.epoch c (rememberedWeights s c)
          { s with stakeBasedRewards := budgets, payouts, history := es ++ s.history } sums with
        commitments := s.commitments.insert c cm' } := by
  have hw : rememberedWeights s c =
      (cm.weights.getLatest (s.currentCycle.epoch - 1)).getD default := by
    rw [rememberedWeights, hc, Option.bind_some]
  unfold rewardCommitment
  rw [hc, hw]
  dsimp only
  rw [if_neg (Nat.not_le.mpr hf)]
  cases hd : distribute s (s.currentCycle.epoch - 1) c
    { cm with lastScoringEpoch := s.currentCycle.epoch } pools with
  | mk s₁ result =>
    obtain ⟨cm', bonus⟩ := result
    obtain ⟨budgets, payouts, es, hsc, rfl⟩ := distribute_scored hd
    have hw' : cm'.weights = cm.weights := by
      cases hsc <;> rfl
    obtain ⟨scores, budgets', hs⟩ := scorePools_rates s.currentCycle.epoch c
      ((cm.weights.getLatest (s.currentCycle.epoch - 1)).getD default)
      { s with stakeBasedRewards := budgets, payouts, history := es ++ s.history } sums
    refine ⟨cm', es, budgets, payouts, hsc, rfl, ?_⟩
    dsimp only [score]
    rw [hw', hs]

theorem rewardCommitment_scored {cm : Commitment} (pools : List PoolId)
    (sums : List (PoolId × Metric × Metric)) (hc : s.commitments.lookup c = some cm)
    (hf : cm.lastScoringEpoch < s.currentCycle.epoch) :
    ∃ cm' es scores stakeBasedRewards payouts,
      Scored s.currentCycle.epoch (rememberedWeights s c).delegationsRewardWeight c cm cm' es ∧
      (rewardCommitment s c pools sums).1 = { s with
        commitments := s.commitments.insert c cm'
        history := es ++ s.history
        scores, stakeBasedRewards, payouts } := by
  obtain ⟨cm', es, budgets, payouts, hsc, -, hq⟩ := rewardCommitment_eq pools sums hc hf
  obtain ⟨scores, budgets', hs⟩ := scorePools_rates s.currentCycle.epoch c (rememberedWeights s c)
    { s with stakeBasedRewards := budgets, payouts, history := es ++ s.history } sums
  rw [hq, hs]
  exact ⟨cm', es, scores, budgets', payouts, hsc, rfl⟩

theorem rewardCommitment_rewarded (pools : List PoolId) (sums : List (PoolId × Metric × Metric))
    (hc : s.backingLookup.lookup m = some c) :
    Rewarded s m (rewardCommitment s c pools sums).1 := by
  cases hm : s.commitments.lookup c with
  | none =>
    rw [rewardCommitment, hm]
    exact .nothing
  | some cm =>
    by_cases hp : s.currentCycle.epoch ≤ cm.lastScoringEpoch
    · rw [rewardCommitment, hm]
      dsimp only
      rw [if_pos hp]
      exact .nothing
    · obtain ⟨cm', es, scores, budgets, payouts, hs, hq⟩ :=
        rewardCommitment_scored pools sums hm (Nat.lt_of_not_le hp)
      rw [hq]
      exact .scored hc hm (Nat.lt_of_not_le hp) hs

theorem reward_rewarded (s : State T) (sums : List (PoolId × Metric × Metric)) (m : ManagerId)
    (pools : List PoolId) (total : ℕ) : Rewarded s m (reward s sums m pools total).1 := by
  unfold reward
  split
  · exact .nothing
  · next c hc => exact rewardCommitment_rewarded pools sums hc

variable [DecidableEq A]

def metricOf (entry : MetricInput) : Option FixedU128 :=
  FixedU128.checkedFromRational entry.2.1 (if entry.2.2 = 0 then 1 else entry.2.2)

/-- The pools that a heartbeat has a metric for: those of the metrics of the processor that are still valid,
if it brings none. -/
def named (s : State T) (proc : A) (metrics : List MetricInput) : List PoolId :=
  if metrics ≠ [] then metrics.filterMap fun entry => (metricOf entry).map fun _ => entry.1
  else ((iterPrefix s.metrics proc).filter fun e => e.2.epoch < s.currentCycle.epoch ∧
    s.currentCycle.epoch - e.2.epoch < T.metricValidity).map (·.1)

def storeMetric (s : State T) (proc : A) (m : ManagerId) (active : Bool) (p : PoolId)
    (previous : Option Metric) (metric : Metric) (bonus : Bool) (info : CommitMetricsInfo) :
    State T × CommitMetricsInfo :=
  let s := { s with metrics := s.metrics.insert (proc, p) ⟨s.currentCycle.epoch, metric⟩ }
  if active then countMetric s m p previous metric bonus info else (s, info)

/-- An entry has no effect: it stands for no metric, or the processor has committed one for the pool in this
epoch already. -/
abbrev Skipped (s : State T) (processor : A) (entry : MetricInput) : Prop :=
  metricOf entry = none ∨
    ¬ (s.metrics.lookup (processor, entry.1)).all (·.epoch < s.currentCycle.epoch) = true

theorem commitNewMetrics_skipped {proc : A} {active : Bool} {entry : MetricInput} {rest : List MetricInput}
    {info : CommitMetricsInfo} (h : Skipped s proc entry) : commitNewMetrics proc m active s (entry :: rest) info =
      commitNewMetrics proc m active s rest info := by
  obtain ⟨p, numerator, denominator⟩ := entry
  unfold Skipped metricOf at h
  rw [commitNewMetrics]
  cases hm : FixedU128.checkedFromRational numerator (if denominator = 0 then 1 else denominator) with
  | none => rfl
  | some metric =>
    rw [hm] at h
    have hs := h.resolve_left (Option.some_ne_none metric)
    dsimp only
    rw [if_neg hs]

theorem commitNewMetrics_stored {proc : A} {entry : MetricInput} (h : ¬ Skipped s proc entry)
    (m : ManagerId) (active : Bool) (info : CommitMetricsInfo) :
    ∃ previous metric, metricOf entry = some metric ∧ ∀ rest,
      commitNewMetrics proc m active s (entry :: rest) info = commitNewMetrics proc m active
        (storeMetric s proc m active entry.1 previous metric false info).1 rest
        (storeMetric s proc m active entry.1 previous metric false info).2 := by
  obtain ⟨p, numerator, denominator⟩ := entry
  obtain ⟨hm, hn⟩ := not_or.mp h
  obtain ⟨metric, hm⟩ := Option.ne_none_iff_exists'.mp hm
  refine ⟨(s.metrics.lookup (proc, p)).map (·.metric), metric, hm, fun rest => ?_⟩
  unfold metricOf at hm
  rw [commitNewMetrics, hm]
  dsimp only
  rw [if_pos (Decidable.not_not.mp hn)]
  cases active <;> rfl

/-- The metrics of a heartbeat for some pools, one after the other. -/
inductive Stores (proc : A) (m : ManagerId) (active : Bool) :
    List PoolId → State T × CommitMetricsInfo → State T × CommitMetricsInfo → Prop
  | done (x : State T × CommitMetricsInfo) : Stores proc m active [] x x
  | skip {p : PoolId} {ps : List PoolId} {s : State T} {info : CommitMetricsInfo}
      {x : State T × CommitMetricsInfo}
      (stored : ¬ (s.metrics.lookup (proc, p)).all (·.epoch < s.currentCycle.epoch) = true)
      (rest : Stores proc m active ps (s, info) x) : Stores proc m active (p :: ps) (s, info) x
  | store {p : PoolId} {ps : List PoolId} {s : State T} {info : CommitMetricsInfo}
      {x : State T × CommitMetricsInfo} (previous : Option Metric) (metric : Metric) (bonus : Bool)
      (rest : Stores proc m active ps (storeMetric s proc m active p previous metric bonus info) x) :
      Stores proc m active (p :: ps) (s, info) x

theorem commitMetrics_stores (s : State T) (proc : A) (m : ManagerId) (active : Bool)
    (metrics : List MetricInput) : Stores proc m active (named s proc metrics) (s, ⟨[], [], []⟩)
      (commitMetrics s proc m active metrics) := by
  have hn : ∀ (metrics : List MetricInput) (s : State T) info, Stores proc m active
      (metrics.filterMap fun entry => (metricOf entry).map fun _ => entry.1) (s, info)
      (commitNewMetrics proc m active s metrics info) := by
    intro metrics
    induction metrics with
    | nil => exact fun s info => .done _
    | cons entry rest ih =>
      intro s info
      rw [List.filterMap_cons]
      by_cases hs : Skipped s proc entry
      · rw [commitNewMetrics_skipped hs]
        cases hm : metricOf entry with
        | none => exact ih s info
        | some metric => exact .skip (hs.resolve_left (by simp [hm])) (ih s info)
      · obtain ⟨previous, metric, hm, hc⟩ := commitNewMetrics_stored hs m active info
        rw [hm, hc]
        exact .store previous metric false (ih _ _)
  have hr : ∀ (entries : List (PoolId × MetricCommit)) (s : State T) info, Stores proc m active
      (entries.map (·.1)) (s, info) (reuseMetricsOf proc m active s entries info) := by
    intro entries
    induction entries with
    | nil => exact fun s info => .done _
    | cons entry rest ih =>
      intro s info
      refine .store (some entry.2.metric) entry.2.metric true ?_
      cases active with
      | false => exact ih _ _
      | true => exact ih _ _
  unfold commitMetrics named
  split_ifs
  · exact hn metrics s _
  · exact hr _ s _

/-- What holds of the state and of what the commits revealed, whatever metrics are stored and
whatever is counted for the manager, holds after the metrics of a heartbeat. -/
theorem commitMetrics_induction {P : State T → CommitMetricsInfo → Prop}
    (hm : ∀ s info metrics, P s info → P { s with metrics } info)
    (hc : ∀ s info p previous metric bonus, P s info →
      P (countMetric s m p previous metric bonus info).1 (countMetric s m p previous metric bonus info).2)
    (s : State T) (processor : A) (active : Bool) (metrics : List MetricInput)
    (hs : P s ⟨[], [], []⟩) :
    P (commitMetrics s processor m active metrics).1 (commitMetrics s processor m active metrics).2 := by
  have hst : ∀ {ps x y}, Stores processor m active ps x y → P x.1 x.2 → P y.1 y.2 := by
    intro ps x y h
    induction h with
    | done x => exact id
    | skip _ _ ih => exact ih
    | store _ _ _ _ ih =>
      intro hx
      refine ih ?_
      rw [storeMetric]
      split_ifs
      · exact hc _ _ _ _ _ _ (hm _ _ _ hx)
      · exact hm _ _ _ hx
  exact hst (commitMetrics_stores s processor m active metrics) hs

theorem commitMetrics_counted (s : State T) (processor : A) (m : ManagerId) (active : Bool)
    (metrics : List MetricInput) : Counted s (commitMetrics s processor m active metrics).1 := by
  have hm : ∀ (s₁ : State T) (_ : CommitMetricsInfo) metrics, Counted s s₁ →
      Counted s { s₁ with metrics } := fun _ _ metrics h => h.metrics metrics
  have hc : ∀ (s₁ : State T) info p previous metric bonus, Counted s s₁ →
      Counted s (countMetric s₁ m p previous metric bonus info).1 :=
    fun _ _ p _ metric bonus h => h.count m p metric bonus
  exact commitMetrics_induction (P := fun s₁ _ => Counted s s₁) hm hc s processor active
    metrics (.refl s)

def rewardCall (s : State T) (processor : A) (m : ManagerId) (metrics : List MetricInput) :
    Option (State T × List (PoolId × Metric × Metric)) :=
  let p := heartbeatProcessor s processor
  let active := decide (p.status = .active)
  let (s, info) := commitMetrics s processor m active metrics
  let p := { p with rewardContribution := (info.computeRewardContribution
    (s.computeBasedRewards.get (s.currentCycle.epoch - 1))).getD p.rewardContribution }
  if active = false ∨ info.previousSums = [] then none
  else some ({ s with processors := s.processors.insert processor p }, info.previousSums)

theorem doCommit_eq (s : State T) (proc : A) (m : ManagerId) (ms : List MetricInput)
    (pools : List PoolId) : ∃ active processors,
      (rewardCall s proc m ms = none ∧ doCommit s proc m ms pools =
        ({ (commitMetrics s proc m active ms).1 with processors }, default)) ∨
      (∃ s₁ sums, rewardCall s proc m ms = some (s₁, sums) ∧
        s₁ = { (commitMetrics s proc m active ms).1 with processors } ∧
        sums = (commitMetrics s proc m active ms).2.previousSums ∧
        doCommit s proc m ms pools = reward s₁ sums m pools
          (s₁.computeBasedRewards.get (s₁.currentCycle.epoch - 1))) := by
  refine ⟨decide ((heartbeatProcessor s proc).status = .active), ?_⟩
  unfold rewardCall doCommit rewardActive
  dsimp only
  by_cases ha : decide ((heartbeatProcessor s proc).status = .active) = false
  · rw [if_pos (.inl ha), if_pos ha]
    exact ⟨_, .inl ⟨rfl, rfl⟩⟩
  · by_cases hs : (commitMetrics s proc m
        (decide ((heartbeatProcessor s proc).status = .active)) ms).2.previousSums = []
    · rw [if_pos (.inr hs), if_neg ha, if_pos hs]
      exact ⟨_, .inl ⟨rfl, rfl⟩⟩
    · rw [if_neg (not_or.mpr ⟨ha, hs⟩), if_neg ha, if_neg hs]
      exact ⟨_, .inr ⟨_, _, rfl, rfl, rfl, rfl⟩⟩

theorem doCommit_rewarded (s : State T) (processor : A) (m : ManagerId) (metrics : List MetricInput)
    (pools : List PoolId) : ∃ s₁ processors, Counted s s₁ ∧
      Rewarded { s₁ with processors } m (doCommit s processor m metrics pools).1 := by
  obtain ⟨active, processors, ⟨-, hq⟩ | ⟨s₁, sums, -, rfl, -, hq⟩⟩ :=
    doCommit_eq s processor m metrics pools
  · rw [hq]
    exact ⟨_, processors, commitMetrics_counted s processor m active metrics, .nothing⟩
  · rw [hq]
    exact ⟨_, processors, commitMetrics_counted s processor m active metrics, reward_rewarded ..⟩

theorem commit_paid (s : State T) (proc manager : A) (m : ManagerId)
    (ms : List MetricInput) : ∃ world managerMetricRewards,
      Trades T (doCommit s proc m ms ((List.range s.lastMetricPoolId).map (· + 1))).1.world
        world ∧
      (commit s proc manager m ms).1 =
        { (doCommit s proc m ms ((List.range s.lastMetricPoolId).map (· + 1))).1 with
          world, managerMetricRewards } := by
  unfold commit
  dsimp only
  split_ifs
  · exact ⟨_, _, .refl, rfl⟩
  · split
    · next w hw => exact ⟨_, _, .single (.transfer hw), rfl⟩
    · exact ⟨_, _, .refl, rfl⟩

theorem commit_writes (s : State T) (proc manager : A) (m : ManagerId)
    (ms : List MetricInput) : ∃ s₁ processors s₂ world managerMetricRewards, Counted s s₁ ∧
      Rewarded { s₁ with processors } m s₂ ∧ Trades T s₂.world world ∧
      (commit s proc manager m ms).1 = { s₂ with world, managerMetricRewards } := by
  obtain ⟨s₁, processors, hc, hr⟩ := doCommit_rewarded s proc m ms
    ((List.range s.lastMetricPoolId).map (· + 1))
  obtain ⟨w, rewards, ht, hq⟩ := commit_paid s proc manager m ms
  exact ⟨s₁, processors, _, w, rewards, hc, hr, ht, hq⟩

end Acurast.Compute
