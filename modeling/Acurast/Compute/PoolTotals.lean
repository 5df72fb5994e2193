import Acurast.Compute.Counting
import Acurast.Compute.SlashEpochs

/-! The totals of the metric pools against the sums of the managers. Both are counted together, so
they agree for every pool under whose id nothing was counted before the pool existed. -/

namespace Acurast.Compute

open Base

variable {A : Type} {T : Config A} {s s' : State T} {mt mt' : Meter A}

def Meter.managerSum (mt : Meter A) (f : Metric × Metric → ℕ) (p : PoolId) (e : ℕ) : ℕ :=
  StorageMap.sum mt.metricsEpochSum fun k b => if k.2 = p then f (b.get e) else 0

structure Meter.Punctual (mt : Meter A) : Prop where
  sums : ∀ k b, mt.metricsEpochSum.lookup k = some b → b.epoch ≤ mt.epoch
  total : ∀ p pool, mt.metricPools.lookup p = some pool → pool.total.epoch ≤ mt.epoch
  totalWithBonus : ∀ p pool, mt.metricPools.lookup p = some pool →
    pool.totalWithBonus.epoch ≤ mt.epoch

def Meter.TotalsAt (mt : Meter A) (e : ℕ) : Prop :=
  ∀ p pool, mt.metricPools.lookup p = some pool →
    pool.total.get e = mt.managerSum Prod.fst p e ∧
    pool.totalWithBonus.get e = mt.managerSum Prod.snd p e

def Meter.Totals (mt : Meter A) : Prop := ∀ e, e = mt.epoch ∨ e + 1 = mt.epoch → mt.TotalsAt e

abbrev Meter.Unsaturated (mt : Meter A) : Prop :=
  ∀ e ∈ mt.metricPools.entries,
    e.2.total.get mt.epoch < maxOf 128 ∧ e.2.totalWithBonus.get mt.epoch < maxOf 128

abbrev Meter.Unused (mt : Meter A) (p : PoolId) : Prop :=
  ∀ e ∈ [mt.epoch, mt.epoch - 1], mt.managerSum Prod.fst p e = 0 ∧ mt.managerSum Prod.snd p e = 0

theorem Meter.Punctual.sums_epoch (h : mt.Punctual) (m : ManagerId) (p : PoolId) :
    (mt.sums m p).epoch ≤ mt.epoch := by
  unfold Meter.sums StorageMap.getD
  cases hl : mt.metricsEpochSum.lookup (m, p) with
  | none => exact Nat.zero_le _
  | some b => exact h.sums _ b hl

theorem countPool_lookup (pools : StorageMap PoolId MetricPool) (e : ℕ) (p q : PoolId)
    (metric bonus : Metric) : (countPool pools e p metric bonus).lookup q =
      if q = p then (pools.lookup q).map fun pool => (pool.add e metric).addBonus e bonus
      else pools.lookup q := by
  unfold countPool
  by_cases hq : q = p
  · subst hq
    cases hp : pools.lookup q with
    | none => simp [hp]
    | some pool => simp
  · cases hp : pools.lookup p with
    | none => simp [hq]
    | some pool => simp [hq, AList.lookup_insert_ne hq]

variable {f : Metric × Metric → ℕ} {p : PoolId} {m : ManagerId} {pool : MetricPool}

theorem managerSum_count (mt : Meter A) (m : ManagerId) (p q : PoolId) (metric withBonus : Metric)
    (hf : f default = 0) (e : ℕ) :
    (mt.count m p metric withBonus).managerSum f q e +
        (if p = q then f ((mt.sums m p).get e) else 0) =
      mt.managerSum f q e + if p = q then f (((mt.sums m p).mutate mt.epoch (fun v =>
        (saturatingAdd 128 v.1 metric, saturatingAdd 128 v.2 withBonus)) false).get e) else 0 := by
  have hs := StorageMap.sum_insert mt.metricsEpochSum
    (fun k b => if k.2 = q then f (b.get e) else 0) (m, p) ((mt.sums m p).mutate mt.epoch (fun v =>
      (saturatingAdd 128 v.1 metric, saturatingAdd 128 v.2 withBonus)) false)
  have hold : StorageMap.at? (fun (k : ManagerId × PoolId) (b : SlidingBuffer (Metric × Metric)) =>
      if k.2 = q then f (b.get e) else 0) (m, p) (mt.metricsEpochSum.lookup (m, p)) =
      if p = q then f ((mt.sums m p).get e) else 0 := by
    unfold Meter.sums StorageMap.getD
    cases mt.metricsEpochSum.lookup (m, p) with
    | none =>
      rw [StorageMap.at?_none, Option.getD_none, SlidingBuffer.get_default, hf, ite_self]
    | some b => rfl
  rw [hold] at hs
  exact hs

theorem le_managerSum (mt : Meter A) (m : ManagerId) (p : PoolId) (hf : f default = 0) (e : ℕ) :
    f ((mt.sums m p).get e) ≤ mt.managerSum f p e := by
  unfold Meter.sums StorageMap.getD
  cases ho : mt.metricsEpochSum.lookup (m, p) with
  | none =>
    rw [Option.getD_none, SlidingBuffer.get_default, hf]
    exact Nat.zero_le _
  | some b =>
    have hl := StorageMap.le_sum (f := fun (k : ManagerId × PoolId) b =>
      if k.2 = p then f (SlidingBuffer.get b e) else 0) ho
    rw [if_pos rfl] at hl
    exact hl

theorem managerSum_count_other (h : mt.Punctual) (m : ManagerId) {q : PoolId}
    (metric withBonus : Metric) (hf : f default = 0) {e : ℕ} (ho : q ≠ p ∨ e + 1 = mt.epoch) :
    (mt.count m p metric withBonus).managerSum f q e = mt.managerSum f q e := by
  have hc := managerSum_count mt m p q metric withBonus hf e
  by_cases hp : p = q
  · have he : e + 1 = mt.epoch := ho.resolve_left fun hn => hn hp.symm
    rw [if_pos hp, if_pos hp, SlidingBuffer.get_mutate_pred (h.sums_epoch m p) he] at hc
    exact Nat.add_right_cancel hc
  · rwa [if_neg hp, if_neg hp] at hc

theorem managerSum_count_self (h : mt.Punctual) (m : ManagerId) (p : PoolId)
    (metric withBonus : Metric) (hf : f default = 0) {amount : ℕ}
    (ha : ∀ v, f (saturatingAdd 128 v.1 metric, saturatingAdd 128 v.2 withBonus) =
      saturatingAdd 128 (f v) amount)
    (hl : saturatingAdd 128 (mt.managerSum f p mt.epoch) amount < maxOf 128) :
    (mt.count m p metric withBonus).managerSum f p mt.epoch =
      saturatingAdd 128 (mt.managerSum f p mt.epoch) amount := by
  have hc := managerSum_count mt m p p metric withBonus hf mt.epoch
  have hle := le_managerSum mt m p hf mt.epoch
  have hs := saturatingAdd_eq_of_lt hl
  have ho : saturatingAdd 128 (f ((mt.sums m p).get mt.epoch)) amount =
      f ((mt.sums m p).get mt.epoch) + amount := by
    apply saturatingAdd_eq_of_lt
    apply lt_of_le_of_lt saturatingAdd_le
    omega
  rw [if_pos rfl, if_pos rfl, SlidingBuffer.get_mutate (h.sums_epoch m p), ha, ho] at hc
  omega

theorem Meter.Punctual.count (h : mt.Punctual) (m : ManagerId) (p : PoolId)
    (metric withBonus : Metric) : (mt.count m p metric withBonus).Punctual := by
  refine ⟨fun k b hb => ?_, fun q pool hp => ?_, fun q pool hp => ?_⟩
  · rw [Meter.count] at hb
    rcases of_lookup_insert hb with ⟨hk, rfl⟩ | ⟨hk, hb⟩
    · exact (SlidingBuffer.epoch_mutate (h.sums_epoch m p) _ _).le
    · exact h.sums k b hb
  all_goals
    simp only [Meter.count, countPool_lookup] at hp
    split_ifs at hp with hq
    · obtain ⟨old, hold, rfl⟩ := Option.map_eq_some_iff.mp hp
      first
      | exact (SlidingBuffer.epoch_mutate (h.total q old hold) _ _).le
      | exact (SlidingBuffer.epoch_mutate (h.totalWithBonus q old hold) _ _).le
    · first
      | exact h.total q pool hp
      | exact h.totalWithBonus q pool hp

theorem Meter.Unsaturated.of_count (hm : mt.Punctual) {metric withBonus : Metric}
    (h : (mt.count m p metric withBonus).Unsaturated) : mt.Unsaturated := by
  rintro ⟨q, pool⟩ hn
  have hp := mem_entries_iff.mp hn
  have hl := countPool_lookup mt.metricPools mt.epoch p q metric withBonus
  by_cases hq : q = p
  · rw [if_pos hq, hp, Option.map_some] at hl
    have ht := h ⟨q, _⟩ (mem_entries_iff.mpr hl)
    simp only [Meter.count, MetricPool.add, MetricPool.addBonus] at ht
    rw [SlidingBuffer.get_mutate (hm.total q pool hp),
      SlidingBuffer.get_mutate (hm.totalWithBonus q pool hp)] at ht
    exact ⟨lt_of_saturatingAdd_lt ht.1, lt_of_saturatingAdd_lt ht.2⟩
  · rw [if_neg hq, hp] at hl
    exact h ⟨q, pool⟩ (mem_entries_iff.mpr hl)

theorem Meter.Totals.count (hm : mt.Punctual) (h : mt.Totals) (m : ManagerId) (p : PoolId)
    (metric bonus : Metric) (hlt : (mt.count m p metric bonus).Unsaturated) :
    (mt.count m p metric bonus).Totals := by
  intro e he q pool hp
  have hl := countPool_lookup mt.metricPools mt.epoch p q metric bonus
  rw [show (countPool mt.metricPools mt.epoch p metric bonus).lookup q = some pool from hp] at hl
  by_cases hq : q = p
  · subst hq
    rw [if_pos rfl] at hl
    obtain ⟨old, hold, rfl⟩ := Option.map_eq_some_iff.mp hl.symm
    obtain ⟨ht, hb⟩ := h e he q old hold
    simp only [MetricPool.add, MetricPool.addBonus]
    rcases he with rfl | he
    · have hc := hlt ⟨q, _⟩ (mem_entries_iff.mpr hp)
      simp only [Meter.count, MetricPool.add, MetricPool.addBonus] at hc ht hb ⊢
      rw [SlidingBuffer.get_mutate (hm.total q old hold), ht,
        SlidingBuffer.get_mutate (hm.totalWithBonus q old hold), hb] at hc
      rw [SlidingBuffer.get_mutate (hm.total q old hold), ht,
        SlidingBuffer.get_mutate (hm.totalWithBonus q old hold), hb]
      exact ⟨(managerSum_count_self hm m q metric bonus rfl (fun v => rfl) hc.1).symm,
        (managerSum_count_self hm m q metric bonus rfl (fun v => rfl) hc.2).symm⟩
    · have ha : e + 1 = mt.epoch := he
      rw [SlidingBuffer.get_mutate_pred (hm.total q old hold) ha,
        SlidingBuffer.get_mutate_pred (hm.totalWithBonus q old hold) ha, ht, hb]
      exact ⟨(managerSum_count_other hm m metric bonus rfl (.inr ha)).symm,
        (managerSum_count_other hm m metric bonus rfl (.inr ha)).symm⟩
  · rw [if_neg hq] at hl
    obtain ⟨ht, hb⟩ := h e he q pool hl.symm
    rw [ht, hb]
    exact ⟨(managerSum_count_other hm m metric bonus rfl (.inl hq)).symm,
      (managerSum_count_other hm m metric bonus rfl (.inl hq)).symm⟩

structure Meter.Balanced (mt : Meter A) : Prop where
  punctual : mt.Punctual
  totals : mt.Totals

theorem Meter.Balanced.of_same (h : mt.Balanced) (ho : mt'.metricPools = mt.metricPools)
    (hs : mt'.metricsEpochSum = mt.metricsEpochSum) (hp : mt'.epoch = mt.epoch) :
    mt'.Balanced := by
  obtain ⟨⟨hs', ht, hb⟩, hto⟩ := h
  refine ⟨⟨?_, ?_, ?_⟩, ?_⟩
  · rwa [hs, hp]
  · rwa [ho, hp]
  · rwa [ho, hp]
  · unfold Meter.Totals Meter.TotalsAt Meter.managerSum at *
    rwa [ho, hs, hp]

theorem doCreatePool_meter {name : MetricPoolName} {ratio : Perquintill}
    {config : List MetricPoolConfigValue} (h : doCreatePool s name ratio config = .ok s') :
    s'.meter = { s.meter with
      lastMetricPoolId := s.lastMetricPoolId + 1
      metricPools := s.metricPools.insert (s.lastMetricPoolId + 1)
        ⟨config, name, ProvisionalBuffer.new ratio, SlidingBuffer.new 0, SlidingBuffer.new 0⟩ } := by
  simp only [doCreatePool, ok_iff, checkedAdd_eq_some] at h
  obtain ⟨-, -, -, -, p, ⟨rfl, -⟩, -, -, rfl⟩ := h
  rfl

theorem modifyPool_meter {name : Option MetricPoolName} {ratio : Option (ℕ × Perquintill)}
    {config : Option ModifyMetricPoolConfig} (h : modifyPool s p name ratio config = .ok s') :
    ∃ pool pool',
      s.metricPools.lookup p = some pool ∧ pool'.total = pool.total ∧
      pool'.totalWithBonus = pool.totalWithBonus ∧
      (match ratio with
        | some (epoch, value) =>
          pool.reward.set (s.currentCycle.epoch - 1) epoch value = some pool'.reward
        | none => pool'.reward = pool.reward) ∧
      s'.meter = { s.meter with metricPools := s.metricPools.insert p pool' } ∧
      validateMetricPools s'.pools s.currentCycle.epoch = .ok () := by
  simp only [modifyPool, bind_eq_ok, okOr_eq_ok] at h
  obtain ⟨pool, hp, ⟨s₁, pool₁⟩, hn, reward, hr, ⟨⟩, hv, hs'⟩ := h
  cases hs'
  have hren : s₁.meter = s.meter ∧ pool₁.total = pool.total ∧
      pool₁.totalWithBonus = pool.totalWithBonus ∧ pool₁.reward = pool.reward := by
    cases name with
    | none =>
      cases hn
      exact ⟨rfl, rfl, rfl, rfl⟩
    | some name =>
      simp only [whenSome, renamePool, bind_eq_ok, ensure_eq_ok] at hn
      obtain ⟨-, -, hn⟩ := hn
      cases pure_eq_ok.mp hn
      exact ⟨rfl, rfl, rfl, rfl⟩
  obtain ⟨hm, ht, hb, ha⟩ := hren
  have hc : s₁.currentCycle = s.currentCycle := congrArg Meter.currentCycle hm
  have ho : s₁.metricPools = s.metricPools := congrArg Meter.metricPools hm
  refine ⟨pool, { pool₁ with reward, config := modifyConfig pool₁.config config }, hp, ht,
    hb, ?_, ?_, ?_⟩
  · cases ratio with
    | none =>
      cases hr
      exact ha
    | some value =>
      rw [← ha, ← hc]
      exact okOr_eq_ok.mp hr
  · rw [← ho]
    exact congrArg (fun mt : Meter A => { mt with metricPools := (s₁.metricPools.insert p
      { pool₁ with reward, config := modifyConfig pool₁.config config }) }) hm
  · rw [← hc]
    exact hv

theorem Meter.Balanced.create (h : mt.Balanced) {last : ℕ}
    (ht : pool.total = SlidingBuffer.new 0) (hb : pool.totalWithBonus = SlidingBuffer.new 0)
    (hu : mt.Unused p) : Meter.Balanced
      { mt with lastMetricPoolId := last, metricPools := mt.metricPools.insert p pool } := by
  have hg : ∀ e, (SlidingBuffer.new 0 : SlidingBuffer FixedU128).get e = 0 :=
    SlidingBuffer.get_default
  refine ⟨⟨h.punctual.sums, fun q pool' hp => ?_, fun q pool' hp => ?_⟩, fun e he q pool' hp => ?_⟩
  · rcases of_lookup_insert hp with ⟨-, rfl⟩ | ⟨-, hp⟩
    · rw [ht]
      exact Nat.zero_le _
    · exact h.punctual.total q pool' hp
  · rcases of_lookup_insert hp with ⟨-, rfl⟩ | ⟨-, hp⟩
    · rw [hb]
      exact Nat.zero_le _
    · exact h.punctual.totalWithBonus q pool' hp
  · rcases of_lookup_insert hp with ⟨hq, rfl⟩ | ⟨hq, hp⟩
    · have he' : e ∈ [mt.epoch, mt.epoch - 1] := by
        rcases he with rfl | he
        · exact List.mem_cons_self ..
        · have hs : e = mt.epoch - 1 := Nat.eq_sub_of_add_eq he
          rw [hs]
          exact List.mem_cons_of_mem _ (List.mem_cons_self ..)
      obtain ⟨hf, hn⟩ := hu e he'
      rw [ht, hb, hg, hq]
      exact ⟨hf.symm, hn.symm⟩
    · exact h.totals e he q pool' hp

theorem Meter.Balanced.modify (h : mt.Balanced) {pool' : MetricPool}
    (hp : mt.metricPools.lookup p = some pool) (ho : pool'.total = pool.total)
    (hbo : pool'.totalWithBonus = pool.totalWithBonus) : Meter.Balanced
      { mt with metricPools := mt.metricPools.insert p pool' } := by
  have hs : ∀ q new, (mt.metricPools.insert p pool').lookup q = some new → ∃ old,
      mt.metricPools.lookup q = some old ∧ new.total = old.total ∧
        new.totalWithBonus = old.totalWithBonus := by
    intro q new hn
    rcases of_lookup_insert hn with ⟨hq, rfl⟩ | ⟨hq, hn⟩
    · exact ⟨pool, hq ▸ hp, ho, hbo⟩
    · exact ⟨new, hn, rfl, rfl⟩
  refine ⟨⟨h.punctual.sums, fun q new hn => ?_, fun q new hn => ?_⟩, fun e he q new hn => ?_⟩
  · obtain ⟨old, hold, ht, -⟩ := hs q new hn
    rw [ht]
    exact h.punctual.total q old hold
  · obtain ⟨old, hold, -, hb⟩ := hs q new hn
    rw [hb]
    exact h.punctual.totalWithBonus q old hold
  · obtain ⟨old, hold, ht, hb⟩ := hs q new hn
    rw [ht, hb]
    exact h.totals e he q old hold

theorem Meter.Balanced.tick (h : mt.Balanced) (ht : Ticks mt mt') : mt'.Balanced := by
  rcases ht.epoch with hep | hep
  · exact h.of_same ht.metricPools ht.metricsEpochSum hep
  · have hl : mt.epoch ≤ mt'.epoch := by omega
    refine ⟨⟨?_, ?_, ?_⟩, fun e he p pool hp => ?_⟩
    · rw [ht.metricsEpochSum]
      exact fun k b hb => (h.punctual.sums k b hb).trans hl
    · rw [ht.metricPools]
      exact fun p pool hp => (h.punctual.total p pool hp).trans hl
    · rw [ht.metricPools]
      exact fun p pool hp => (h.punctual.totalWithBonus p pool hp).trans hl
    · rw [ht.metricPools] at hp
      unfold Meter.managerSum
      rw [ht.metricsEpochSum]
      rcases he with rfl | he
      · have hn : ∀ {f : Metric × Metric → ℕ}, f default = 0 →
            StorageMap.sum mt.metricsEpochSum
              (fun k b => if k.2 = p then f (b.get mt'.epoch) else 0) = 0 := by
          intro f hf
          refine StorageMap.sum_eq_zero fun k b hb => ?_
          have hlt := Nat.lt_of_le_of_lt (h.punctual.sums k b hb) (by omega : mt.epoch < mt'.epoch)
          rw [SlidingBuffer.get_of_epoch_lt hlt, hf, ite_self]
        have ho := Nat.lt_of_le_of_lt (h.punctual.total p pool hp) (by omega : mt.epoch < mt'.epoch)
        have hbo := Nat.lt_of_le_of_lt (h.punctual.totalWithBonus p pool hp)
          (by omega : mt.epoch < mt'.epoch)
        rw [hn rfl, hn rfl, SlidingBuffer.get_of_epoch_lt ho, SlidingBuffer.get_of_epoch_lt hbo]
        exact ⟨rfl, rfl⟩
      · exact h.totals e (.inl (by omega)) p pool hp

theorem genesis_balanced (w : T.World) : (State.genesis T w).meter.Balanced := by
  refine ⟨⟨?_, ?_, ?_⟩, ?_⟩
  · intro k b hb
    simp [State.genesis, State.meter] at hb
  · intro p pool hp
    simp [State.genesis, State.meter] at hp
  · intro p pool hp
    simp [State.genesis, State.meter] at hp
  · intro e he p pool hp
    simp [State.genesis, State.meter] at hp

variable [DecidableEq A]

theorem commit_balanced {proc manager : A} {ms : List MetricInput} (hs : s.meter.Balanced)
    (hl : (commit s proc manager m ms).1.meter.Unsaturated) :
    (commit s proc manager m ms).1.meter.Balanced := by
  -- a saturated total stays saturated, so the last state vouches for all the counts before it
  have hk := commit_induction (P := fun mt => mt.Punctual ∧ (mt.Unsaturated → mt.Totals))
    (fun mt ms h => ⟨⟨h.1.sums, h.1.total, h.1.totalWithBonus⟩, h.2⟩)
    (fun mt m p metric bonus h => ⟨h.1.count m p metric bonus, fun hl =>
      (h.2 (hl.of_count h.1)).count h.1 m p metric bonus hl⟩)
    (fun mt scores budgets lastScored payouts h => ⟨⟨h.1.sums, h.1.total, h.1.totalWithBonus⟩, h.2⟩)
    s proc manager m ms ⟨hs.punctual, fun _ => hs.totals⟩
  exact ⟨hk.1, hk.2 hl⟩

def Op.createsPool : Op T → Bool
  | .dispatch _ (.createPool _ _ _) => true
  | _ => false

abbrev Fresh (s : State T) (op : Op T) : Prop :=
  op.createsPool = true → s.meter.Unused (s.lastMetricPoolId + 1)

theorem step_balanced {op : Op T} (hst : Started s) (hf : Fresh s op)
    (hl : (step s op).meter.Unsaturated) (hs : s.meter.Balanced) : (step s op).meter.Balanced := by
  have ht := step_metered s op
  generalize step s op = s' at ht hl ⊢
  cases ht with
  | kept hm => rwa [hm]
  | create call =>
    rw [doCreatePool_meter call]
    exact hs.create rfl rfl (hf rfl)
  | modify call =>
    obtain ⟨pool, pool', hp, ho, hb, -, hme, -⟩ := modifyPool_meter call
    rw [hme]
    exact hs.modify hp ho hb
  | heartbeat => exact commit_balanced hs hl
  | block => exact hs.tick (onInitialize_ticks hst)

abbrev CountsFresh (s : State T) (op : Op T) : Prop := Fresh s op ∧ (step s op).meter.Unsaturated

theorem poolTotals_eq_managerSums (w : T.World) (ops : List (Op T))
    (hrun : Along step CountsFresh (State.genesis T w) ops) (p : PoolId) (pool : MetricPool)
    (hpool : (reached w ops).metricPools.lookup p = some pool) (e : ℕ)
    (he : e = (reached w ops).currentCycle.epoch ∨
      e + 1 = (reached w ops).currentCycle.epoch) :
    pool.total.get e = StorageMap.sum (reached w ops).metricsEpochSum
        (fun k b => if k.2 = p then (b.get e).1 else 0) ∧
      pool.totalWithBonus.get e = StorageMap.sum (reached w ops).metricsEpochSum
        (fun k b => if k.2 = p then (b.get e).2 else 0) := by
  have hk : ∀ (s : State T) op, CountsFresh s op → Timed s ∧ s.meter.Balanced →
      Timed (step s op) ∧ (step s op).meter.Balanced := by
    intro s op ho hs
    exact ⟨step_timed s op hs.1, step_balanced hs.1.started ho.1 ho.2 hs.2⟩
  have hb := run_invariant hk hrun ⟨genesis_timed w, genesis_balanced w⟩
  exact hb.2.totals e he p pool hpool

theorem poolTotals_of_prepared : ∃ pool,
    (after prepared).metricPools.lookup 1 = some pool ∧
      pool.total.get 1 = StorageMap.sum (after prepared).metricsEpochSum
        (fun k b => if k.2 = 1 then (b.get 1).1 else 0) ∧
      pool.totalWithBonus.get 1 =
        StorageMap.sum (after prepared).metricsEpochSum
          (fun k b => if k.2 = 1 then (b.get 1).2 else 0) := by
  have hr : Along step CountsFresh (State.genesis mock []) prepared := by decide +kernel
  have hs : ((after prepared).metricPools.lookup 1).isSome := by
    decide +kernel
  have hep : (after prepared).currentCycle.epoch = 2 := by
    decide +kernel
  obtain ⟨pool, hp⟩ := Option.isSome_iff_exists.mp hs
  have ht := poolTotals_eq_managerSums (T := mock) [] prepared hr 1 pool hp 1 (.inr hep.symm)
  exact ⟨pool, hp, ht⟩

def lateCreation : List (Op mock) := [.block, beat, newPool 0 100]

/-- The new pool starts from zero, beside a manager's sum that is not. -/
theorem poolTotals_ne_of_lateCreation :
    (after lateCreation).currentCycle.epoch = 1 ∧
    ((after lateCreation).metricPools.lookup 1).map
      (fun pool => (pool.total.get 1, pool.totalWithBonus.get 1)) = some (0, 0) ∧
    StorageMap.sum (after lateCreation).metricsEpochSum
      (fun k b => if k.2 = 1 then (b.get 1).1 else 0) = 10 * 10 ^ 18 ∧
    StorageMap.sum (after lateCreation).metricsEpochSum
      (fun k b => if k.2 = 1 then (b.get 1).2 else 0) = 10 * 10 ^ 18 := by
  decide +kernel

end Acurast.Compute
