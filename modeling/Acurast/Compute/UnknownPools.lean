import Acurast.Compute.Mock

/-! Metrics that a heartbeat commits for pools that do not exist. They are skipped if they are not stored
either; otherwise they are counted for the manager, whose claim then fails in the next epoch. -/

namespace Acurast.Compute

open Base

variable {A : Type} [DecidableEq A] {T : Config A} {s : State T} {processor proc : A} {m : ManagerId}
  {active : Bool} {info : CommitMetricsInfo}

variable {entry : MetricInput}

theorem Skipped.store {p : PoolId} {previous : Option Metric} {metric : Metric} {bonus : Bool}
    (h : Skipped s proc entry) :
    Skipped (storeMetric s proc m active p previous metric bonus info).1 proc entry := by
  obtain ⟨pools, sums, hw⟩ : ∃ metricPools metricsEpochSum,
      (storeMetric s proc m active p previous metric bonus info).1 = { s with
        metrics := s.metrics.insert (proc, p) ⟨s.currentCycle.epoch, metric⟩
        metricPools, metricsEpochSum } := by
    unfold storeMetric
    split_ifs
    · exact (updateMetricsEpochSum_writes _ m p metric bonus).imp fun _ ⟨_, hw⟩ => ⟨_, hw⟩
    · exact ⟨_, _, rfl⟩
  refine h.imp_right fun hs => ?_
  rw [hw, lookup_insert_eq]
  split_ifs
  · simp
  · exact hs

theorem commitNewMetrics_filter {keep : MetricInput → Bool} {l : List MetricInput}
    (h : ∀ entry ∈ l, keep entry = false → Skipped s proc entry) :
    commitNewMetrics proc m active s (l.filter keep) info =
      commitNewMetrics proc m active s l info := by
  induction l generalizing s info with
  | nil => rfl
  | cons entry rest ih =>
    have hr : ∀ entry ∈ rest, keep entry = false → Skipped s proc entry :=
      fun e he => h e (List.mem_cons_of_mem _ he)
    by_cases hs : Skipped s proc entry
    · rw [commitNewMetrics_skipped hs, ← ih hr]
      cases hk : keep entry with
      | true => rw [List.filter_cons_of_pos hk, commitNewMetrics_skipped hs]
      | false => rw [List.filter_cons_of_neg (by simp [hk])]
    · have hk : keep entry = true := by
        by_contra hn
        exact hs (h entry List.mem_cons_self (Bool.eq_false_iff.mpr hn))
      obtain ⟨previous, metric, -, hc⟩ := commitNewMetrics_stored hs m active info
      rw [List.filter_cons_of_pos hk, hc, hc]
      exact ih fun e he hd => (hr e he hd).store

def knownMetrics (s : State T) (metrics : List MetricInput) : List MetricInput :=
  metrics.filter fun entry => (s.metricPools.lookup entry.1).isSome

abbrev UnknownSkipped (s : State T) (processor : A) (metrics : List MetricInput) : Prop :=
  (∀ entry ∈ metrics, s.metricPools.lookup entry.1 = none → Skipped s processor entry) ∧
    (knownMetrics s metrics = [] → metrics = [])

theorem commitMetrics_known {metrics : List MetricInput} (h : UnknownSkipped s proc metrics) :
    commitMetrics s proc m active (knownMetrics s metrics) =
      commitMetrics s proc m active metrics := by
  obtain ⟨hs, ho⟩ := h
  unfold commitMetrics
  by_cases hm : metrics = []
  · rw [hm]
    rfl
  · rw [if_pos (fun hn => hm (ho hn)), if_pos hm]
    refine commitNewMetrics_filter fun entry hen hu => hs entry hen ?_
    exact Option.isNone_iff_eq_none.mp (by simpa using hu)

/-- Entries that name no pool, and are skipped, change neither what a heartbeat is given nor anything
later. -/
theorem unknown_pools_ignored (T : Config A) (s : State T) (processor manager : A) (m : ManagerId)
    (metrics : List MetricInput) (h : UnknownSkipped s processor metrics) :
    (commit s processor manager m metrics).2 =
        (commit s processor manager m (knownMetrics s metrics)).2 ∧
      ∀ ops, run step (commit s processor manager m metrics).1 ops =
        run step (commit s processor manager m (knownMetrics s metrics)).1 ops := by
  have hs : commit s processor manager m metrics =
      commit s processor manager m (knownMetrics s metrics) := by
    unfold commit doCommit
    dsimp only
    rw [commitMetrics_known h]
  rw [hs]
  exact ⟨rfl, fun _ => rfl⟩

def onePool : State mock := run step (State.genesis mock [])
  [newPool 0 100, .dispatch .root .enableInflation, .block, beat, .block]

def oversized : List MetricInput := [(1, 10, 1), (9, 2 ^ 128, 1)]

theorem unknown_pools_ignored_oversized :
    (commit onePool 3 1 1 oversized).2 = (commit onePool 3 1 1 (knownMetrics onePool oversized)).2 ∧
      ∀ ops, run step (commit onePool 3 1 1 oversized).1 ops =
        run step (commit onePool 3 1 1 (knownMetrics onePool oversized)).1 ops :=
  unknown_pools_ignored mock onePool 3 1 1 oversized (by decide +kernel)

def unknownPool : List MetricInput := [(1, 10, 1), (9, 10, 1)]

def nextReward (metrics : List MetricInput) : ℕ :=
  (commit (run step (commit onePool 3 1 1 metrics).1 [.block]) 3 1 1 []).2.reward

theorem reward_lost_of_unknownPool :
    onePool.metricPools.lookup 9 = none ∧ knownMetrics onePool unknownPool = [(1, 10, 1)] ∧
      nextReward (knownMetrics onePool unknownPool) = 2568493150684931 ∧ nextReward unknownPool = 0 := by
  decide +kernel

end Acurast.Compute
