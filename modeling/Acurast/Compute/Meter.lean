import Acurast.Compute.Pallet

/-! What the heartbeats measure, score and pay for, and who backs whom. No call on stakes and
delegations touches either. -/

namespace Acurast.Compute

open Base

variable {A : Type} {T : Config A} {s s' s₁ s₂ : State T} {who : A} {c : CommitmentId}

/-- The storage of the metrics, the scores and the budgets, with the last epoch that every
commitment was scored in and what was paid out of the budgets. -/
structure Meter (A : Type) where
  currentCycle : Cycle
  lastMetricPoolId : PoolId
  metricPools : StorageMap PoolId MetricPool
  metrics : StorageMap (A × PoolId) MetricCommit
  metricsEpochSum : StorageMap (ManagerId × PoolId) (SlidingBuffer (Metric × Metric))
  scores : StorageMap (CommitmentId × PoolId) (SlidingBuffer (ℕ × ℕ))
  computeBasedRewards : SlidingBuffer ℕ
  stakeBasedRewards : StorageMap PoolId (SlidingBuffer RewardBudget)
  lastScored : CommitmentId → ℕ
  payouts : List (Payment (PoolId × ℕ))

def State.meter (s : State T) : Meter A where
  currentCycle := s.currentCycle
  lastMetricPoolId := s.lastMetricPoolId
  metricPools := s.metricPools
  metrics := s.metrics
  metricsEpochSum := s.metricsEpochSum
  scores := s.scores
  computeBasedRewards := s.computeBasedRewards
  stakeBasedRewards := s.stakeBasedRewards
  lastScored := fun c => (s.commitments.lookup c).elim 0 (·.lastScoringEpoch)
  payouts := s.payouts

structure Backing (A : Type) where
  backingOffers : StorageMap A ManagerId
  backings : StorageMap CommitmentId ManagerId
  backingLookup : StorageMap ManagerId CommitmentId

def State.backing (s : State T) : Backing A := ⟨s.backingOffers, s.backings, s.backingLookup⟩

def State.fixed (s : State T) : Meter A × Backing A := (s.meter, s.backing)

variable {cm : Commitment}

theorem fixed_insert
    (h : cm.lastScoringEpoch = (s.commitments.lookup c).elim 0 (·.lastScoringEpoch)) :
    ({ s with commitments := s.commitments.insert c cm } : State T).fixed = s.fixed := by
  have hs : (fun c' => ((s.commitments.insert c cm).lookup c').elim 0 (·.lastScoringEpoch)) =
      fun c' => (s.commitments.lookup c').elim 0 (·.lastScoringEpoch) := by
    funext c'
    by_cases hc : c' = c
    · rw [hc, AList.lookup_insert, Option.elim_some, h]
    · rw [AList.lookup_insert_ne hc]
  simp only [State.fixed, State.meter, State.backing, hs]

theorem fixed_insert_of_found {cm' : Commitment} (hf : s.commitments.lookup c = some cm)
    (h : cm'.lastScoringEpoch = cm.lastScoringEpoch) :
    ({ s with commitments := s.commitments.insert c cm' } : State T).fixed = s.fixed :=
  fixed_insert (by rw [hf, Option.elim_some, h])

end Acurast.Compute
