import Acurast.Compute.Ticks

/-! The two halves of a heartbeat on the meter: metrics are counted for the manager, and what the
count reveals of the epoch before is rewarded. -/

namespace Acurast.Compute

open Base

variable {A : Type} {T : Config A} {s : State T}

def Meter.sums (mt : Meter A) (m : ManagerId) (p : PoolId) : SlidingBuffer (Metric × Metric) :=
  StorageMap.getD mt.metricsEpochSum (m, p) default

def countPool (pools : StorageMap PoolId MetricPool) (epoch : ℕ) (p : PoolId)
    (metric withBonus : Metric) : StorageMap PoolId MetricPool :=
  match pools.lookup p with
  | some pool => pools.insert p ((pool.add epoch metric).addBonus epoch withBonus)
  | none => pools

def Meter.count (mt : Meter A) (m : ManagerId) (p : PoolId) (metric withBonus : Metric) : Meter A :=
  { mt with
    metricPools := countPool mt.metricPools mt.epoch p metric withBonus
    metricsEpochSum := mt.metricsEpochSum.insert (m, p) ((mt.sums m p).mutate mt.epoch
      (fun v => (saturatingAdd 128 v.1 metric, saturatingAdd 128 v.2 withBonus)) false) }

def metricWithBonus (T : Config A) (metric : Metric) (bonus : Bool) : Metric :=
  if bonus then saturatingAdd 128 metric (T.busyWeightBonus.mulFloor metric) else metric

theorem updateMetricsEpochSum_meter (s : State T) (m : ManagerId) (p : PoolId) (metric : Metric)
    (bonus : Bool) : (updateMetricsEpochSum s m p metric bonus).1.meter =
      s.meter.count m p metric (metricWithBonus T metric bonus) := by
  simp only [Meter.count, countPool]
  have hp : s.meter.metricPools = s.metricPools := rfl
  rw [hp]
  unfold updateMetricsEpochSum
  cases s.metricPools.lookup p with
  | none => rfl
  | some pool => rfl

theorem updateMetricsEpochSum_epochSum (s : State T) (m : ManagerId) (p : PoolId) (metric : Metric)
    (bonus : Bool) : (updateMetricsEpochSum s m p metric bonus).2.epochSum =
      if (s.meter.sums m p).epoch + 1 = s.currentCycle.epoch then some (s.meter.sums m p).cur
      else none := by
  have hes : (updateMetricsEpochSum s m p metric bonus).2.epochSum =
      if (s.meter.sums m p).epoch < s.currentCycle.epoch ∧
          s.currentCycle.epoch - (s.meter.sums m p).epoch = 1 then
        some (((s.meter.sums m p).mutate s.currentCycle.epoch (fun v => (saturatingAdd 128 v.1 metric,
          saturatingAdd 128 v.2 (metricWithBonus T metric bonus))) false).get (s.meter.sums m p).epoch)
      else none := by
    unfold updateMetricsEpochSum
    cases s.metricPools.lookup p with
    | none => rfl
    | some pool => rfl
  rw [hes]
  by_cases hs : (s.meter.sums m p).epoch + 1 = s.currentCycle.epoch
  · have hg : (s.meter.sums m p).get (s.meter.sums m p).epoch = (s.meter.sums m p).cur := by
      rw [SlidingBuffer.get, if_neg (Nat.succ_ne_self _), if_pos rfl]
    rw [if_pos hs, if_pos (by omega), SlidingBuffer.get_mutate_pred (by omega) hs, hg]
  · rw [if_neg hs, if_neg (by omega)]

theorem countMetric_previousSums (s : State T) (m : ManagerId) (p : PoolId)
    (previous : Option Metric) (metric : Metric) (bonus : Bool) (info : CommitMetricsInfo) :
    (countMetric s m p previous metric bonus info).2.previousSums = info.previousSums ++
      if (s.meter.sums m p).epoch + 1 = s.currentCycle.epoch then [(p, (s.meter.sums m p).cur)]
      else [] := by
  simp only [countMetric, updateMetricsEpochSum_epochSum]
  split_ifs <;> rfl

theorem reward_meter (s : State T) (sums : List (PoolId × Metric × Metric)) (m : ManagerId)
    (pools : List PoolId) (total : ℕ) : ∃ scores stakeBasedRewards lastScored payouts,
      (reward s sums m pools total).1.meter =
        { s.meter with scores, stakeBasedRewards, lastScored, payouts } := by
  have hr := reward_rewarded s sums m pools total
  generalize (reward s sums m pools total).1 = s₁ at hr
  cases hr with
  | nothing => exact ⟨_, _, _, _, rfl⟩
  | scored => exact ⟨_, _, _, _, rfl⟩

variable [DecidableEq A]

theorem epoch_pos_of_rewardCall {proc : A} {m : ManagerId} {ms : List MetricInput}
    (h : (rewardCall s proc m ms).isSome) : 0 < s.currentCycle.epoch := by
  by_contra hz
  have hp : s.currentCycle.epoch = 0 := Nat.eq_zero_of_not_pos hz
  have hn := commitMetrics_induction (m := m)
    (P := fun s₁ info => s₁.currentCycle.epoch = 0 ∧ info.previousSums = [])
    (fun s₁ info ms h => h)
    (fun s₁ info p previous metric bonus h => by
      have hm : (countMetric s₁ m p previous metric bonus info).1.meter =
          s₁.meter.count m p metric (metricWithBonus T metric bonus) :=
        updateMetricsEpochSum_meter s₁ m p metric bonus
      refine ⟨(congrArg Meter.epoch hm).trans h.1, ?_⟩
      rw [countMetric_previousSums, h.1, h.2, if_neg (Nat.succ_ne_zero _)]
      rfl)
    s proc (decide ((heartbeatProcessor s proc).status = .active)) ms ⟨hp, rfl⟩
  have hc : rewardCall s proc m ms = none := if_pos (.inr hn.2)
  rw [hc] at h
  cases h

theorem commit_meter (s : State T) (proc manager : A) (m : ManagerId)
    (ms : List MetricInput) : (commit s proc manager m ms).1.meter =
      (doCommit s proc m ms ((List.range s.lastMetricPoolId).map (· + 1))).1.meter := by
  obtain ⟨w, rewards, -, hq⟩ := commit_paid s proc manager m ms
  rw [hq]
  rfl

theorem commit_induction {P : Meter A → Prop} (hme : ∀ mt metrics, P mt → P { mt with metrics })
    (ho : ∀ mt m p metric withBonus, P mt → P (Meter.count mt m p metric withBonus))
    (hr : ∀ mt scores stakeBasedRewards lastScored payouts, P mt →
      P { mt with scores, stakeBasedRewards, lastScored, payouts })
    (s : State T) (processor manager : A) (m : ManagerId) (metrics : List MetricInput)
    (hs : P s.meter) : P (commit s processor manager m metrics).1.meter := by
  have hc : ∀ active, P (commitMetrics s processor m active metrics).1.meter := by
    intro active
    refine commitMetrics_induction (P := fun s _ => P s.meter) (fun s info metrics h => ?_)
      (fun s info p previous metric bonus h => ?_) s processor active metrics hs
    · exact hme s.meter metrics h
    · rw [show (countMetric s m p previous metric bonus info).1.meter = _ from
        updateMetricsEpochSum_meter s m p metric bonus]
      exact ho s.meter m p metric _ h
  rw [commit_meter]
  obtain ⟨active, processors, ⟨-, hq⟩ | ⟨s₁, sums, -, rfl, -, hq⟩⟩ := doCommit_eq s processor m metrics
    ((List.range s.lastMetricPoolId).map (· + 1))
  · rw [hq]
    exact hc active
  · rw [hq]
    obtain ⟨scores, budgets, lastScored, payouts, hm⟩ := reward_meter
      { (commitMetrics s processor m active metrics).1 with processors } sums m
      ((List.range s.lastMetricPoolId).map (· + 1))
      ((commitMetrics s processor m active metrics).1.computeBasedRewards.get
        ((commitMetrics s processor m active metrics).1.currentCycle.epoch - 1))
    rw [hm]
    exact hr _ scores budgets lastScored payouts (hc active)

end Acurast.Compute
