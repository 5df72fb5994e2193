import Acurast.Base.Spending
import Acurast.Compute.Ratios

/-! The metric rewards that the managers claim for an epoch, against its budget. Every sum of a manager
is claimed once, for its share in the total of the pool; only changes of totals or ratios after the fact
break this. -/

namespace Acurast.Compute

open Base

variable {A : Type} {T : Config A} {s s' : State T} {mt mt' : Meter A} {e : ℕ}

def Meter.weight (mt : Meter A) (e : ℕ) (p : PoolId) (y : Metric) : ℕ :=
  match mt.metricPools.lookup p with
  | none => 0
  | some pool =>
    if pool.totalWithBonus.get e = 0 then 0
    else ((pool.reward.get e).saturatingMul (PerThing.fromRational y (pool.totalWithBonus.get e))).parts

variable {p : PoolId} {ratio : Perquintill} {sums : List (PoolId × Metric × Metric)}

theorem weight_of_lookup {pool : MetricPool} (h : mt.metricPools.lookup p = some pool) (y : Metric) :
    mt.weight e p y = if pool.totalWithBonus.get e = 0 then 0
      else ((pool.reward.get e).saturatingMul
        (PerThing.fromRational y (pool.totalWithBonus.get e))).parts := by
  rw [Meter.weight, h]

def Meter.pending (mt : Meter A) (e : ℕ) : ℕ :=
  StorageMap.sum mt.metricsEpochSum fun k b => if b.epoch = e then mt.weight e k.2 b.cur.2 else 0

theorem weight_zero (mt : Meter A) (e : ℕ) (p : PoolId) : mt.weight e p 0 = 0 := by
  unfold Meter.weight
  split
  · rfl
  · next pool hp =>
    split_ifs with ht
    · rfl
    · have hr : (PerThing.fromRational 0 (pool.totalWithBonus.get e) : Perquintill).parts = 0 := by
        rw [PerThing.fromRational, if_neg (not_or.mpr ⟨ht, Nat.not_lt_zero _⟩)]
        simp [PerThing.fromParts]
      simp [PerThing.saturatingMul, PerThing.fromParts, hr]

theorem pending_congr (hp : mt'.metricPools = mt.metricPools)
    (hs : mt'.metricsEpochSum = mt.metricsEpochSum) (e : ℕ) : mt'.pending e = mt.pending e := by
  unfold Meter.pending Meter.weight
  rw [hp, hs]

theorem pending_le_of_weight_le (hs : mt'.metricsEpochSum = mt.metricsEpochSum)
    (hw : ∀ k b, mt.metricsEpochSum.lookup k = some b → b.epoch = e →
      mt'.weight e k.2 b.cur.2 ≤ mt.weight e k.2 b.cur.2) : mt'.pending e ≤ mt.pending e := by
  unfold Meter.pending
  rw [hs]
  refine StorageMap.sum_le_sum fun k b hb => ?_
  split_ifs with he
  · exact hw k b hb he
  · exact le_rfl

theorem pending_le (hm : mt.Balanced) (hr : mt.Apportioned) : mt.pending mt.epoch ≤ 10 ^ 18 := by
  refine le_trans ?_ (hr mt.epoch le_rfl)
  have hg := StorageMap.sum_le_sum_by mt.metricsEpochSum mt.metricPools Prod.snd
    (f := fun k b => if b.epoch = mt.epoch then mt.weight mt.epoch k.2 b.cur.2 else 0) (by
      intro k b hb hn
      rw [Meter.weight, hn, ite_self])
  refine hg.trans (StorageMap.sum_le_sum fun p pool ho => ?_)
  by_cases ht : pool.totalWithBonus.get mt.epoch = 0
  · refine (StorageMap.sum_eq_zero fun k b hb => ?_).le.trans (Nat.zero_le _)
    split_ifs with hk
    · rw [hk, weight_of_lookup ho, if_pos ht]
    · rfl
    · rfl
  -- the managers' sums in the pool make up its total
  have hs : ((mt.metricsEpochSum.entries).map fun entry =>
      if entry.1.2 = p ∧ entry.2.epoch = mt.epoch then entry.2.cur.2 else 0).sum ≤
        pool.totalWithBonus.get mt.epoch := by
    rw [(hm.totals mt.epoch (.inl rfl) p pool ho).2]
    refine List.sum_le_sum fun entry _ => ?_
    dsimp only
    by_cases hy : entry.1.2 = p ∧ entry.2.epoch = mt.epoch
    · rw [if_pos hy, if_pos hy.1, ← hy.2, SlidingBuffer.get, if_neg (by omega), if_pos rfl]
    · rw [if_neg hy]
      exact Nat.zero_le _
  refine le_trans ?_ (PerThing.sum_saturatingMul_fromRational_le (pool.reward.get mt.epoch) (by decide)
    (Nat.pos_of_ne_zero ht) _ _ hs)
  refine List.sum_le_sum fun entry _ => ?_
  dsimp only
  by_cases hp : entry.1.2 = p
  · by_cases he : entry.2.epoch = mt.epoch
    · rw [if_pos hp, if_pos he, if_pos ⟨hp, he⟩, hp, weight_of_lookup ho, if_neg ht]
    · rw [if_pos hp, if_neg he]
      exact Nat.zero_le _
  · rw [if_neg hp]
    exact Nat.zero_le _

theorem weight_count (hm : mt.Punctual) (he : e + 1 = mt.epoch) (m : ManagerId) (p : PoolId)
    (metric withBonus : Metric) : (mt.count m p metric withBonus).weight e = mt.weight e := by
  funext q y
  unfold Meter.weight
  have hl : (mt.count m p metric withBonus).metricPools.lookup q = _ :=
    countPool_lookup mt.metricPools mt.epoch p q metric withBonus
  rw [hl]
  by_cases hq : q = p
  · rw [if_pos hq]
    cases hp : mt.metricPools.lookup q with
    | none => rfl
    | some pool =>
      have hg : (((pool.add mt.epoch metric).addBonus mt.epoch withBonus).totalWithBonus).get e =
          pool.totalWithBonus.get e :=
        SlidingBuffer.get_mutate_pred (hm.totalWithBonus q pool hp) he _ _
      simp only [Option.map_some, hg]
      rfl
  · rw [if_neg hq]

theorem pending_count (hm : mt.Punctual) (he : e + 1 = mt.epoch) (m : ManagerId) (p : PoolId)
    (metric bonus : Metric) : (mt.count m p metric bonus).pending e +
      (if (mt.sums m p).epoch + 1 = mt.epoch then mt.weight e p (mt.sums m p).cur.2 else 0) ≤
        mt.pending e := by
  have hs := StorageMap.sum_insert mt.metricsEpochSum
    (fun k b => if b.epoch = e then mt.weight e k.2 b.cur.2 else 0) (m, p) ((mt.sums m p).mutate mt.epoch
      (fun v => (saturatingAdd 128 v.1 metric, saturatingAdd 128 v.2 bonus)) false)
  have hn : ((mt.sums m p).mutate mt.epoch (fun v =>
      (saturatingAdd 128 v.1 metric, saturatingAdd 128 v.2 bonus)) false).epoch ≠ e := by
    rw [SlidingBuffer.epoch_mutate (hm.sums_epoch m p)]
    omega
  rw [if_neg hn, Nat.add_zero] at hs
  have hold : (if (mt.sums m p).epoch + 1 = mt.epoch then mt.weight e p (mt.sums m p).cur.2 else 0) ≤
      StorageMap.at? (fun (k : ManagerId × PoolId) (b : SlidingBuffer (Metric × Metric)) =>
        if b.epoch = e then mt.weight e k.2 b.cur.2 else 0) (m, p) (mt.metricsEpochSum.lookup (m, p)) := by
    unfold Meter.sums StorageMap.getD
    cases mt.metricsEpochSum.lookup (m, p) with
    | none =>
      have hz : mt.weight e p (default : SlidingBuffer (Metric × Metric)).cur.2 = 0 := weight_zero mt e p
      rw [Option.getD_none, hz, ite_self]
      exact Nat.zero_le _
    | some b =>
      simp only [Option.getD_some, StorageMap.at?_some, ← he, Nat.add_right_cancel_iff, le_refl]
  unfold Meter.pending
  rw [weight_count hm he]
  exact (Nat.add_le_add_left hold _).trans hs.le

def Meter.weights (mt : Meter A) (e : ℕ) (sums : List (PoolId × Metric × Metric)) : ℕ :=
  (sums.map fun entry => mt.weight e entry.1 entry.2.2).sum

theorem claimRatio_le {total : Perquintill} (h : claimRatio s e sums ratio = .ok total) :
    total.parts ≤ ratio.parts + s.meter.weights e sums := by
  induction sums generalizing ratio with
  | nil =>
    rw [← pure_eq_ok.mp h]
    exact Nat.le_add_right _ _
  | cons entry rest ih =>
    obtain ⟨p, x, y⟩ := entry
    simp only [claimRatio, ok_iff] at h
    obtain ⟨pool, hp, hr⟩ := h
    have hl := ih hr
    have hf : s.meter.metricPools.lookup p = some pool := hp
    have hw := weight_of_lookup (e := e) hf y
    simp only [Meter.weights, List.map_cons, List.sum_cons, hw]
    refine hl.trans ?_
    unfold Meter.weights
    have ha : ∀ w : Perquintill, (ratio.saturatingAdd w).parts ≤ ratio.parts + w.parts :=
      fun w => min_le_left _ _
    refine (Nat.add_le_add_right (ha _) _).trans ?_
    split_ifs
    · simp [PerThing.zero]
    · rw [Nat.add_assoc]

theorem doClaim_le {bg amount : ℕ} (h : doClaim s e sums bg = .ok amount) :
    amount * 10 ^ 18 ≤ bg * s.meter.weights e sums := by
  unfold doClaim at h
  split_ifs at h
  · rw [← pure_eq_ok.mp h, Nat.zero_mul]
    exact Nat.zero_le _
  · simp only [ok_iff] at h
    obtain ⟨ratio, hr, rfl⟩ := h
    have hl := claimRatio_le hr
    rw [show (PerThing.zero : Perquintill).parts = 0 from rfl, Nat.zero_add] at hl
    exact (Nat.div_mul_le_self _ _).trans (Nat.mul_le_mul_left _ hl)

theorem reward_set_le {b b' : ProvisionalBuffer Perquintill} {prev epoch : ℕ}
    (h : b.set prev epoch ratio = some b')
    (hk : prev < epoch ∨ ratio.parts ≤ (b.get prev).parts) :
    (b'.get prev).parts ≤ (b.get prev).parts := by
  unfold ProvisionalBuffer.set at h
  by_cases hb : epoch ≤ prev
  · rw [if_pos hb] at h
    rw [← Option.some.inj h]
    exact hk.resolve_left (Nat.not_lt.mpr hb)
  · rw [if_neg hb] at h
    unfold ProvisionalBuffer.get
    cases hn : b.next with
    | none =>
      rw [hn] at h
      rw [← Option.some.inj h]
      exact (congrArg PerThing.parts (if_neg hb)).le
    | some next =>
      obtain ⟨nextEpoch, nextRatio⟩ := next
      simp only [hn] at h
      split_ifs at h with hs hl
      · have ho : ¬ nextEpoch ≤ prev := fun hle => hb (hs.trans hle)
        rw [← Option.some.inj h]
        dsimp only
        rw [if_neg hb, if_neg ho]
      · rw [← Option.some.inj h]
        dsimp only
        rw [if_neg hb, if_pos (Nat.not_lt.mp hl)]

theorem doCreatePool_pending {name : MetricPoolName} {config : List MetricPoolConfigValue}
    (h : doCreatePool s name ratio config = .ok s')
    (hu : s.meter.Unused (s.lastMetricPoolId + 1)) (he : e + 1 = s.currentCycle.epoch) :
    s'.meter.pending e ≤ s.meter.pending e := by
  rw [doCreatePool_meter h]
  refine pending_le_of_weight_le rfl fun k b hb hp => ?_
  by_cases hk : k.2 = s.lastMetricPoolId + 1
  · have hr : s.meter.epoch - 1 = e := by
      show s.currentCycle.epoch - 1 = e
      omega
    have hs := (hu e (by simp [hr])).2
    have hn := StorageMap.le_sum (f := fun k b => if k.2 = s.lastMetricPoolId + 1 then (b.get e).2 else 0) hb
    have hz : b.cur.2 = 0 := by
      rw [if_pos hk, ← hp, SlidingBuffer.get, if_neg (by omega), if_pos rfl] at hn
      rw [← hp] at hs
      exact Nat.le_zero.mp (hn.trans hs.le)
    rw [hz, weight_zero, weight_zero]
  · refine le_of_eq ?_
    unfold Meter.weight
    rw [AList.lookup_insert_ne hk]
    rfl

variable [DecidableEq A]

theorem commitMetrics_pending (hs : s.meter.Punctual) (he : e + 1 = s.currentCycle.epoch) (proc : A)
    (m : ManagerId) (active : Bool) (ms : List MetricInput) :
    (commitMetrics s proc m active ms).1.meter.pending e +
        (commitMetrics s proc m active ms).1.meter.weights e
          (commitMetrics s proc m active ms).2.previousSums ≤ s.meter.pending e := by
  have hk := commitMetrics_induction (m := m) (P := fun s₁ info => s₁.meter.Punctual ∧
      e + 1 = s₁.currentCycle.epoch ∧ s₁.meter.pending e + s₁.meter.weights e info.previousSums ≤
        s.meter.pending e)
    (fun s₁ info ms h => ⟨⟨h.1.sums, h.1.total, h.1.totalWithBonus⟩, h.2⟩)
    (fun s₁ info p previous metric bonus h => ?_) s proc active ms ⟨hs, he, le_rfl⟩
  · exact hk.2.2
  · obtain ⟨hp, hep, hl⟩ := h
    have hm : (countMetric s₁ m p previous metric bonus info).1.meter =
        s₁.meter.count m p metric (metricWithBonus T metric bonus) :=
      updateMetricsEpochSum_meter s₁ m p metric bonus
    have hc := pending_count hp hep m p metric (metricWithBonus T metric bonus)
    refine ⟨?_, ?_, ?_⟩
    · rw [hm]
      exact hp.count m p metric _
    · exact hep.trans (congrArg Meter.epoch hm).symm
    · rw [hm, countMetric_previousSums]
      unfold Meter.weights at hl ⊢
      rw [weight_count hp hep, List.map_append, List.sum_append]
      have hr : ((if (s₁.meter.sums m p).epoch + 1 = s₁.currentCycle.epoch
          then [(p, (s₁.meter.sums m p).cur)] else []).map
            fun entry => s₁.meter.weight e entry.1 entry.2.2).sum =
          if (s₁.meter.sums m p).epoch + 1 = s₁.meter.epoch
            then s₁.meter.weight e p (s₁.meter.sums m p).cur.2 else 0 := by
        show _ = if (s₁.meter.sums m p).epoch + 1 = s₁.currentCycle.epoch then _ else _
        split_ifs
        · simp
        · rfl
      omega

def claimOf (s : State T) (processor : A) (m : ManagerId) (metrics : List MetricInput) :
    Option (Payment ℕ) := do
  let (s, sums) ← rewardCall s processor m metrics
  let claimEpoch := s.currentCycle.epoch - 1
  let budget := s.computeBasedRewards.get claimEpoch
  let amount ← (doClaim s claimEpoch sums budget).toOption
  pure ⟨claimEpoch, amount, budget⟩

theorem commit_pending (hs : s.meter.Punctual) (he : e + 1 = s.currentCycle.epoch) (proc manager : A)
    (m : ManagerId) (metrics : List MetricInput) :
    (commit s proc manager m metrics).1.meter.pending e ≤ s.meter.pending e ∧
      ∀ s₁ sums, rewardCall s proc m metrics = some (s₁, sums) →
        s₁.currentCycle = s.currentCycle ∧ s₁.computeBasedRewards = s.computeBasedRewards ∧
        (commit s proc manager m metrics).1.meter.pending e + s₁.meter.weights e sums ≤
          s.meter.pending e := by
  rw [commit_meter]
  obtain ⟨active, processors, ⟨hn, hq⟩ | ⟨s₁, sums, ho, rfl, rfl, hq⟩⟩ := doCommit_eq s proc m
    metrics ((List.range s.lastMetricPoolId).map (· + 1))
  · rw [hq, hn]
    have hl := commitMetrics_pending hs he proc m active metrics
    exact ⟨(Nat.le_add_right _ _).trans hl, fun _ _ h => by cases h⟩
  · have hl := commitMetrics_pending hs he proc m active metrics
    rw [hq, ho]
    obtain ⟨scores, budgets, lastScored, payouts, hm⟩ := reward_meter
      { (commitMetrics s proc m active metrics).1 with processors }
      (commitMetrics s proc m active metrics).2.previousSums m
      ((List.range s.lastMetricPoolId).map (· + 1))
      ((commitMetrics s proc m active metrics).1.computeBasedRewards.get
        ((commitMetrics s proc m active metrics).1.currentCycle.epoch - 1))
    have hp : Meter.pending _ e = (commitMetrics s proc m active metrics).1.meter.pending e :=
      pending_congr (congrArg Meter.metricPools hm) (congrArg Meter.metricsEpochSum hm) e
    rw [hp]
    refine ⟨(Nat.le_add_right _ _).trans hl, fun s₁ sums h => ?_⟩
    obtain ⟨rfl, rfl⟩ := Prod.mk.inj (Option.some.inj h)
    obtain ⟨ms, ps, sums, hme⟩ := (commitMetrics_counted s proc m active metrics).writes
    refine ⟨?_, ?_, hl⟩
    · rw [hme]
    · rw [hme]

theorem claimOf_le (hs : s.meter.Punctual) (he : e + 1 = s.currentCycle.epoch) {processor : A} (manager : A)
    {m : ManagerId} {metrics : List MetricInput} {claim : Payment ℕ}
    (h : claimOf s processor m metrics = some claim) :
    claim.key = e ∧ claim.budget = s.computeBasedRewards.get e ∧ claim.amount * 10 ^ 18 +
          (commit s processor manager m metrics).1.meter.pending e * s.computeBasedRewards.get e ≤
        s.meter.pending e * s.computeBasedRewards.get e := by
  obtain ⟨⟨s₁, sums⟩, hca, hres⟩ := Option.bind_eq_some_iff.mp h
  obtain ⟨amount, ha, hc⟩ := Option.bind_eq_some_iff.mp hres
  obtain ⟨hy, hw, hl⟩ := (commit_pending hs he processor manager m metrics).2 s₁ sums hca
  have hp : s₁.currentCycle.epoch - 1 = e := by
    rw [hy]
    omega
  rw [hp, hw] at ha hc
  rw [← Option.some.inj hc]
  refine ⟨rfl, rfl, ?_⟩
  have ho : doClaim s₁ e sums (s.computeBasedRewards.get e) = .ok amount := by
    cases hr : doClaim s₁ e sums (s.computeBasedRewards.get e) with
    | ok amount' =>
      rw [hr] at ha
      exact congrArg _ (Option.some.inj ha)
    | error err =>
      rw [hr] at ha
      cases ha
  have hb := doClaim_le ho
  have hm := Nat.mul_le_mul_right (s.computeBasedRewards.get e) hl
  rw [Nat.add_mul, Nat.add_comm] at hm
  rw [Nat.mul_comm (s.computeBasedRewards.get e)] at hb
  exact (Nat.add_le_add_right hb _).trans hm

/-- The claims so far are covered, and what can still be claimed in this epoch is covered by what is left of
the budget. -/
structure Funded (claims : List (Payment ℕ)) (mt : Meter A) : Prop where
  rewards : mt.computeBasedRewards.epoch ≤ mt.epoch
  past : ∀ claim ∈ claims, claim.key < mt.epoch
  within : WithinBudget claims (fun e => e + 1 = mt.epoch) mt.computeBasedRewards.get
  left : ∀ e, e + 1 = mt.epoch →
    paidFor claims e * 10 ^ 18 + mt.pending e * mt.computeBasedRewards.get e ≤
      10 ^ 18 * mt.computeBasedRewards.get e

variable {claims : List (Payment ℕ)}

omit [DecidableEq A] in
theorem Funded.keep (h : Funded claims mt) (hp : mt'.epoch = mt.epoch)
    (hr : mt'.computeBasedRewards.epoch ≤ mt'.epoch)
    (hb : ∀ e, e + 1 = mt.epoch → mt'.computeBasedRewards.get e = mt.computeBasedRewards.get e)
    (hpe : ∀ e, e + 1 = mt.epoch → mt'.pending e ≤ mt.pending e) : Funded claims mt' := by
  refine ⟨hr, hp ▸ h.past, h.within.reopen fun claim _ he => ?_, fun e he => ?_⟩
  · rw [hp] at he
    exact ⟨he, hb claim.key he⟩
  · rw [hp] at he
    rw [hb e he]
    refine le_trans ?_ (h.left e he)
    exact Nat.add_le_add_left (Nat.mul_le_mul_right _ (hpe e he)) _

omit [DecidableEq A] in
theorem Funded.claim {claim : Payment ℕ} (h : Funded claims mt) (hp : mt'.epoch = mt.epoch)
    (hr : mt'.computeBasedRewards = mt.computeBasedRewards) (he : claim.key + 1 = mt.epoch)
    (hb : claim.budget = mt.computeBasedRewards.get claim.key)
    (ha : claim.amount * 10 ^ 18 + mt'.pending claim.key * claim.budget ≤
      mt.pending claim.key * claim.budget) : Funded ([claim] ++ claims) mt' := by
  have ho : paidFor [claim] claim.key = claim.amount := by simp [paidFor]
  have hl : paidFor ([claim] ++ claims) claim.key * 10 ^ 18 + mt'.pending claim.key * claim.budget ≤
      10 ^ 18 * claim.budget := by
    have hbe := h.left claim.key he
    rw [← hb] at hbe
    rw [paidFor_append, ho, Nat.add_mul]
    calc _ = paidFor claims claim.key * 10 ^ 18 +
          (claim.amount * 10 ^ 18 + mt'.pending claim.key * claim.budget) := by
            rw [Nat.add_comm (claim.amount * 10 ^ 18), Nat.add_assoc]
      _ ≤ paidFor claims claim.key * 10 ^ 18 + mt.pending claim.key * claim.budget :=
          Nat.add_le_add_left ha _
      _ ≤ 10 ^ 18 * claim.budget := hbe
  have hco : paidFor ([claim] ++ claims) claim.key ≤ claim.budget := by
    have hle := (Nat.le_add_right _ _).trans hl
    rw [Nat.mul_comm (10 ^ 18)] at hle
    exact Nat.le_of_mul_le_mul_right hle (by decide)
  refine ⟨?_, fun c hc => ?_, ?_, fun e he' => ?_⟩
  · rw [hr, hp]
    exact h.rewards
  · rw [hp]
    rcases List.mem_append.mp hc with hc | hc
    · rw [List.mem_singleton.mp hc]
      omega
    · exact h.past c hc
  · rw [hr, hp]
    refine h.within.append (fun x hx => ?_) fun e he' => ?_
    · rw [List.mem_singleton.mp hx]
      exact ⟨he, hb⟩
    · obtain rfl : e = claim.key := by omega
      rw [← hb]
      exact hco
  · rw [hp] at he'
    obtain rfl : e = claim.key := by omega
    rw [hr, ← hb]
    exact hl

omit [DecidableEq A] in
theorem Funded.tick (h : Funded claims mt) (hm : mt.Balanced) (ha : mt.Apportioned)
    (ht : Ticks mt mt') : Funded claims mt' := by
  have hpe := pending_congr ht.metricPools ht.metricsEpochSum
  have hr : mt'.computeBasedRewards.epoch ≤ mt'.epoch ∧ ∀ e, e + 1 = mt'.epoch →
      mt'.computeBasedRewards.get e = mt.computeBasedRewards.get e := by
    have hl : mt.computeBasedRewards.epoch ≤ mt'.epoch := by
      have hb := h.rewards
      rcases ht.epoch with hp | hp <;> omega
    rcases ht.computeBasedRewards with hs | ⟨x, hu⟩
    · rw [hs]
      exact ⟨hl, fun _ _ => rfl⟩
    · rw [hu]
      exact ⟨(SlidingBuffer.epoch_mutate hl _ _).le,
        fun e he => SlidingBuffer.get_mutate_pred hl he _ _⟩
  rcases ht.epoch with hp | hp
  · refine h.keep hp hr.1 (fun e he => hr.2 e (hp ▸ he)) fun e _ => (hpe e).le
  · refine ⟨hr.1, fun claim hc => ?_, h.within.reopen fun claim hc he => ?_, fun e he => ?_⟩
    · have hpa := h.past claim hc
      omega
    · have hpa := h.past claim hc
      omega
    · obtain rfl : e = mt.epoch := by omega
      have hn : paidFor claims mt.epoch = 0 :=
        paidFor_eq_zero fun claim hc => (h.past claim hc).ne
      rw [hn, Nat.zero_mul, Nat.zero_add, hpe]
      exact Nat.mul_le_mul_right _ (pending_le hm ha)

def Op.ratioChange : Op T → Option (PoolId × ℕ × Perquintill)
  | .dispatch _ (.modifyPool p _ (some (epoch, ratio)) _) => some (p, epoch, ratio)
  | _ => none

abbrev KeepsRatios (s : State T) (op : Op T) : Prop :=
  ∀ change ∈ op.ratioChange, s.currentCycle.epoch - 1 < change.2.1 ∨ ∀ pool ∈ s.metricPools.lookup change.1,
    change.2.2.parts ≤ (pool.reward.get (s.currentCycle.epoch - 1)).parts

omit [DecidableEq A] in
theorem modifyPool_pending {name : Option MetricPoolName} {ratio : Option (ℕ × Perquintill)}
    {config : Option ModifyMetricPoolConfig} {o : Origin A}
    (h : modifyPool s p name ratio config = .ok s')
    (hke : KeepsRatios s (.dispatch o (.modifyPool p name ratio config)))
    (he : e + 1 = s.currentCycle.epoch) : s'.meter.pending e ≤ s.meter.pending e := by
  obtain ⟨pool, pool', hp, -, ho, hr, hm, -⟩ := modifyPool_meter h
  have hpr : s.currentCycle.epoch - 1 = e := by omega
  have ha : (pool'.reward.get e).parts ≤ (pool.reward.get e).parts := by
    cases ratio with
    | none =>
      rw [hr]
    | some entry =>
      have hc := hke (p, entry) rfl
      simp only [hpr, hp, Option.mem_some_iff, forall_eq'] at hc
      rw [hpr] at hr
      exact reward_set_le hr hc
  rw [hm]
  refine pending_le_of_weight_le rfl fun k b hb hep => ?_
  by_cases hk : k.2 = p
  · have hn : ({ s.meter with metricPools := s.metricPools.insert p pool' } : Meter A).metricPools.lookup
        k.2 = some pool' := by
      rw [hk]
      exact AList.lookup_insert _
    have hold : s.meter.metricPools.lookup k.2 = some pool := by
      rw [hk]
      exact hp
    rw [weight_of_lookup hn, weight_of_lookup hold, ho]
    split_ifs
    · exact le_rfl
    · exact min_le_min_right _ (Nat.div_le_div_right (Nat.mul_le_mul_right _ ha))
  · refine le_of_eq ?_
    unfold Meter.weight
    rw [AList.lookup_insert_ne hk]
    rfl

def noteClaims (claims : List (Payment ℕ)) (s : State T) : Op T → List (Payment ℕ)
  | .heartbeat processor _ m metrics => (claimOf s processor m metrics).toList ++ claims
  | _ => claims

def claimsMade (s : State T) (ops : List (Op T)) : List (Payment ℕ) := recordRun step noteClaims s [] ops

abbrev Prudent (s : State T) (op : Op T) : Prop := CountsFresh s op ∧ KeepsRatios s op

theorem commit_claims (h : Funded claims s.meter) (hs : s.meter.Punctual) (proc manager : A)
    (m : ManagerId) (ms : List MetricInput) :
    Funded ((claimOf s proc m ms).toList ++ claims)
      (commit s proc manager m ms).1.meter := by
  have hk := commit_induction (P := fun mt => mt.epoch = s.meter.epoch ∧
      mt.computeBasedRewards = s.meter.computeBasedRewards)
    (fun mt ms h => h) (fun mt m p metric bonus h => h)
    (fun mt scores budgets lastScored payouts h => h) s proc manager m ms ⟨rfl, rfl⟩
  cases hl : claimOf s proc m ms with
  | none =>
    refine h.keep hk.1 ?_ (fun e _ => by rw [hk.2]) fun e he =>
      (commit_pending hs he proc manager m ms).1
    rw [hk.2, hk.1]
    exact h.rewards
  | some claim =>
    have hc : (rewardCall s proc m ms).isSome := by
      obtain ⟨_, hc, -⟩ := Option.bind_eq_some_iff.mp hl
      rw [hc]
      rfl
    have ho := epoch_pos_of_rewardCall hc
    have he : s.currentCycle.epoch - 1 + 1 = s.currentCycle.epoch := by omega
    obtain ⟨hep, hb, hp⟩ := claimOf_le hs he manager hl
    rw [← hep] at hb hp he
    rw [← hb] at hp
    exact h.claim hk.1 hk.2 he hb hp

theorem step_funded {op : Op T} (ho : Prudent s op) (hs : Started s) (hb : s.meter.Balanced)
    (ha : s.meter.Apportioned) (h : Funded claims s.meter) :
    Funded (noteClaims claims s op) (step s op).meter := by
  obtain ⟨⟨hf, -⟩, hk⟩ := ho
  cases op with
  | heartbeat proc manager m ms =>
    exact commit_claims h hb.punctual proc manager m ms
  | block => exact h.tick hb ha (onInitialize_ticks hs)
  | outside w => exact h
  | dispatch o call =>
    have ht := step_metered s (.dispatch o call)
    generalize step s (.dispatch o call) = s' at ht ⊢
    cases ht with
    | kept hm =>
      rw [hm]
      exact h
    | create call =>
      have hme := doCreatePool_meter call
      have hp : s'.meter.epoch = s.meter.epoch := by rw [hme]
      have hr : s'.meter.computeBasedRewards = s.meter.computeBasedRewards := by rw [hme]
      exact h.keep hp (by rw [hr, hp]; exact h.rewards) (fun e _ => by rw [hr])
        fun e he => doCreatePool_pending call (hf rfl) he
    | modify call =>
      obtain ⟨pool, pool', -, -, -, -, hme, -⟩ := modifyPool_meter call
      have hp : s'.meter.epoch = s.meter.epoch := by rw [hme]
      have hr : s'.meter.computeBasedRewards = s.meter.computeBasedRewards := by rw [hme]
      exact h.keep hp (by rw [hr, hp]; exact h.rewards) (fun e _ => by rw [hr])
        fun e he => modifyPool_pending call hk he

/-- In every run that leaves what is over alone, the claims for an epoch stay within its budget. -/
theorem metric_rewards_within_budget (w : T.World) (ops : List (Op T))
    (hrun : Along step Prudent (State.genesis T w) ops) :
    ∀ claim ∈ claimsMade (State.genesis T w) ops,
      paidFor (claimsMade (State.genesis T w) ops) claim.key ≤ claim.budget := by
  have hk : ∀ (s : State T) claims op, Prudent s op →
      (Timed s ∧ s.meter.Balanced ∧ s.meter.Apportioned ∧ Funded claims s.meter) →
      Timed (step s op) ∧ (step s op).meter.Balanced ∧ (step s op).meter.Apportioned ∧
        Funded (noteClaims claims s op) (step s op).meter := by
    intro s claims op ho ⟨ht, hb, hr, hf⟩
    exact ⟨step_timed s op ht, step_balanced ht.started ho.1.1 ho.1.2 hb,
      step_apportioned ht.started hr,
      step_funded ho ht.started hb hr hf⟩
  have hg : Funded [] (State.genesis T w).meter := by
    refine ⟨le_rfl, ?_, .nil, ?_⟩
    · intro claim hc
      cases hc
    · intro e he
      cases he
  exact (recordRun_invariant hk hrun
    ⟨genesis_timed w, genesis_balanced w, genesis_apportioned w, hg⟩).2.2.2.within.settled

/-- All of the rewards are for the first of two pools. Two managers report one pool each, and in the next
epoch the first of them claims. -/
def firstPoolOnly : List (Op mock) :=
  [newPool 0 100, newPool 1 0, .dispatch .root .enableInflation, .block, .block, beat,
    .heartbeat 5 6 2 [(2, 10, 1)], .block, beat]

theorem metric_rewards_within_budget_firstPoolOnly :
    Along step Prudent (State.genesis mock []) firstPoolOnly ∧
      claimsMade (State.genesis mock []) firstPoolOnly = [⟨2, 2568493150684931, 2568493150684931⟩] ∧
      ∀ claim ∈ claimsMade (State.genesis mock []) firstPoolOnly,
        paidFor (claimsMade (State.genesis mock []) firstPoolOnly) claim.key ≤ claim.budget := by
  have hr : Along step Prudent (State.genesis mock []) firstPoolOnly := by decide +kernel
  have hw := metric_rewards_within_budget (T := mock) [] firstPoolOnly hr
  exact ⟨hr, by decide +kernel, hw⟩

def secondPoolAfterwards : List (Op mock) :=
  firstPoolOnly ++ [.dispatch .root (.modifyPool 1 none (some (3, percent 0)) none),
    .dispatch .root (.modifyPool 2 none (some (2, percent 100)) none), .heartbeat 5 6 2 [(2, 10, 1)]]

theorem claimed_twice_of_secondPoolAfterwards :
    claimsMade (State.genesis mock []) secondPoolAfterwards =
        [⟨2, 2568493150684931, 2568493150684931⟩, ⟨2, 2568493150684931, 2568493150684931⟩] ∧
      (after secondPoolAfterwards).computeBasedRewards.get 2 = 2568493150684931 ∧
      paidFor (claimsMade (State.genesis mock []) secondPoolAfterwards) 2 = 2 * 2568493150684931 := by
  decide +kernel

end Acurast.Compute
