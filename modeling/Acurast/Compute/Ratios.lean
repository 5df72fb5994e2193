import Acurast.Base.Shares
import Acurast.Compute.PoolTotals

/-! The reward ratios of the metric pools. Creating and changing a pool checks them for the current epoch
and for every later one they change at, so they never add up to more than one from now on. -/

namespace Acurast.Compute

open Base

variable {A : Type} {T : Config A} {s s' : State T} {mt mt' : Meter A} {epoch x : ℕ} {pools : List MetricPool}

def ratioParts (pools : List MetricPool) (x : ℕ) : ℕ :=
  (pools.map fun pool => (pool.reward.get x).parts).sum

theorem rewardSumAt_le {sum total : Perquintill} (h : rewardSumAt epoch pools sum = some total) :
    sum.parts + ratioParts pools epoch ≤ 10 ^ 18 := by
  induction pools generalizing sum with
  | nil => exact sum.le_one
  | cons pool rest ih =>
    obtain ⟨next, hn, hr⟩ := Option.bind_eq_some_iff.mp h
    unfold PerThing.checkedAdd at hn
    split_ifs at hn
    have hl := ih hr
    rw [← Option.some.inj hn] at hl
    simp only [ratioParts, List.map_cons, List.sum_cons] at hl ⊢
    omega

theorem reward_get_succ {b : ProvisionalBuffer Perquintill} (hl : epoch ≤ x)
    (hn : b.nextEpoch epoch ≠ some (x + 1)) : b.get (x + 1) = b.get x := by
  unfold ProvisionalBuffer.nextEpoch at hn
  unfold ProvisionalBuffer.get
  cases hb : b.next with
  | none => rfl
  | some entry =>
    obtain ⟨e, v⟩ := entry
    rw [hb] at hn
    dsimp only at hn ⊢
    have hne : e ≠ x + 1 := by
      rintro rfl
      rw [if_pos (by omega)] at hn
      exact hn rfl
    by_cases he : e ≤ x
    · rw [if_pos he, if_pos (by omega)]
    · rw [if_neg he, if_neg (by omega)]

theorem ratioParts_le_of_validate (h : validateMetricPools pools epoch = .ok ()) (hl : epoch ≤ x) :
    ratioParts pools x ≤ 10 ^ 18 := by
  have ht : ∀ e ∈ epoch :: pools.filterMap (·.reward.nextEpoch epoch),
      ratioParts pools e ≤ 10 ^ 18 := by
    intro e he
    have ha := List.all_eq_true.mp (ensure_eq_ok.mp h) e he
    obtain ⟨total, ho⟩ := Option.isSome_iff_exists.mp ha
    exact (Nat.le_add_left _ _).trans (rewardSumAt_le ho)
  induction x, hl using Nat.le_induction with
  | base => exact ht epoch List.mem_cons_self
  | succ x hl ih =>
    by_cases hn : x + 1 ∈ pools.filterMap (·.reward.nextEpoch epoch)
    · exact ht (x + 1) (List.mem_cons_of_mem _ hn)
    · have hs : ∀ pool ∈ pools, (pool.reward.get (x + 1)).parts = (pool.reward.get x).parts := by
        intro pool hp
        rw [reward_get_succ hl fun hq => hn (List.mem_filterMap.mpr ⟨pool, hp, hq⟩)]
      have hpa : ratioParts pools (x + 1) = ratioParts pools x :=
        congrArg List.sum (List.map_congr_left hs)
      rw [hpa]
      exact ih

def Meter.ratioSum (mt : Meter A) (x : ℕ) : ℕ :=
  StorageMap.sum mt.metricPools fun _ pool => (pool.reward.get x).parts

def Meter.Apportioned (mt : Meter A) : Prop := ∀ x, mt.epoch ≤ x → mt.ratioSum x ≤ 10 ^ 18

theorem ratioParts_pools (s : State T) (x : ℕ) : ratioParts s.pools x = s.meter.ratioSum x := by
  unfold ratioParts State.pools
  rw [List.map_map]
  rfl

theorem ratioSum_count (mt : Meter A) (m : ManagerId) (p : PoolId) (metric withBonus : Metric) (x : ℕ) :
    (mt.count m p metric withBonus).ratioSum x = mt.ratioSum x := by
  unfold Meter.ratioSum Meter.count countPool
  split
  · next pool hp =>
    have hs := sum_insert_some hp
      ((pool.add mt.currentCycle.epoch metric).addBonus mt.currentCycle.epoch withBonus)
      (fun _ pool => (pool.reward.get x).parts)
    exact Nat.add_right_cancel hs
  · rfl

theorem doCreatePool_apportioned {name : MetricPoolName} {ratio : Perquintill}
    {config : List MetricPoolConfigValue} (h : doCreatePool s name ratio config = .ok s') :
    s'.meter.Apportioned := by
  have hm := doCreatePool_meter h
  simp only [doCreatePool, bind_eq_ok] at h
  obtain ⟨⟨⟩, -, ⟨⟩, -, p, -, ⟨⟩, hv, -⟩ := h
  rw [hm]
  intro x hx
  have hp := ratioParts_le_of_validate hv hx
  rw [ratioParts, List.map_append, List.sum_append] at hp
  have ho : (s.pools.map fun pool => (pool.reward.get x).parts).sum = s.meter.ratioSum x :=
    ratioParts_pools s x
  rw [ho] at hp
  have hs := StorageMap.sum_insert s.metricPools (fun _ pool => (pool.reward.get x).parts)
    (s.lastMetricPoolId + 1)
    ⟨config, name, ProvisionalBuffer.new ratio, SlidingBuffer.new 0, SlidingBuffer.new 0⟩
  exact (Nat.le_of_add_right_le hs.le).trans hp

theorem genesis_apportioned (w : T.World) : (State.genesis T w).meter.Apportioned :=
  fun _ _ => Nat.zero_le _

variable [DecidableEq A]

theorem commit_ratioSum (s : State T) (proc manager : A) (m : ManagerId) (ms : List MetricInput) :
    (commit s proc manager m ms).1.meter.epoch = s.meter.epoch ∧
      ∀ x, (commit s proc manager m ms).1.meter.ratioSum x = s.meter.ratioSum x :=
  commit_induction (P := fun mt => mt.epoch = s.meter.epoch ∧ ∀ x, mt.ratioSum x = s.meter.ratioSum x)
    (fun _ _ h => h)
    (fun mt m p metric bonus h => ⟨h.1, fun x => (ratioSum_count mt m p metric bonus x).trans (h.2 x)⟩)
    (fun _ _ _ _ _ h => h) s proc manager m ms ⟨rfl, fun _ => rfl⟩

theorem step_apportioned {op : Op T} (hst : Started s) (hs : s.meter.Apportioned) :
    (step s op).meter.Apportioned := by
  have ht := step_metered s op
  generalize step s op = s' at ht ⊢
  cases ht with
  | kept hm => rwa [hm]
  | create call => exact doCreatePool_apportioned call
  | modify call =>
    obtain ⟨pool, pool', -, -, -, -, hme, hv⟩ := modifyPool_meter call
    intro x hx
    rw [← ratioParts_pools]
    refine ratioParts_le_of_validate hv ?_
    rw [hme] at hx
    exact hx
  | heartbeat =>
    intro x hx
    obtain ⟨hp, hu⟩ := commit_ratioSum s _ _ _ _
    rw [hp] at hx
    rw [hu]
    exact hs x hx
  | block =>
    have hti := onInitialize_ticks hst
    intro x hx
    unfold Meter.ratioSum
    rw [hti.metricPools]
    refine hs x ?_
    rcases hti.epoch with hp | hp <;> omega

/-- In every run, the ratios of the pools add up to at most one in the current epoch and in every later one,
however changes of several pools are scheduled. -/
theorem pool_ratios_within_one (w : T.World) (ops : List (Op T)) (n : ℕ) :
    (reached w ops).meter.ratioSum
      ((reached w ops).currentCycle.epoch + n) ≤ 10 ^ 18 := by
  have hs : ∀ (s : State T) op, Timed s ∧ s.meter.Apportioned →
      Timed (step s op) ∧ (step s op).meter.Apportioned :=
    fun s op h => ⟨step_timed s op h.1, step_apportioned h.1.started h.2⟩
  have hr := run_invariant' hs ops ⟨genesis_timed w, genesis_apportioned w⟩
  exact hr.2 _ (Nat.le_add_right _ n)

end Acurast.Compute
