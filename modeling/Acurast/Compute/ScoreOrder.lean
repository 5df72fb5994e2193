import Acurast.Compute.Mock
import Acurast.Compute.Scores

/-! The scores of a commitment under heartbeats of its manager's processors in different orders. A
commitment is scored by the first heartbeat of the epoch that reveals sums of the epoch before, and only in
the pools that this one names, up to the first of them that cannot be scored. -/

namespace Acurast.Compute

open Base

section Scores

variable {A : Type} {T : Config A} {s t : State T} {c : CommitmentId} {m : ManagerId} {p q : PoolId}
  {ps : List PoolId} {v : Metric × Metric} {cm : Commitment}

def targetIn (s : State T) (q : PoolId) : ℕ :=
  ((StorageMap.getD s.stakeBasedRewards q default).get s.currentCycle.epoch).targetWeightPerCompute

theorem boundedMetrics_spec (T : Config A) (committed sum bonus : Metric) :
    (boundedMetrics T committed sum bonus).1 = min sum committed ∧
      (boundedMetrics T committed sum bonus).2 ≤ committed := by
  have hm := PerThing.mulFloor_le T.busyWeightBonus committed
  unfold boundedMetrics
  split_ifs with hs
  · exact ⟨(min_eq_left hs.le).symm, Nat.zero_le _⟩
  · refine ⟨(min_eq_right (not_lt.mp hs)).symm, ?_⟩
    dsimp only
    split_ifs with hb
    · exact hm
    · exact (not_lt.mp hb).trans hm

theorem scoreOf_ok_iff {ws : CommitmentWeights} {target : ℕ} {committed sum bonus : Metric}
    (hc : committed < 2 ^ 128) : (∃ v, scoreOf T ws target committed sum bonus = .ok v) ↔
      0 < min sum committed ∧ target * min sum committed < 2 ^ 256 := by
  obtain ⟨hb, hle⟩ := boundedMetrics_spec T committed sum bonus
  simp only [scoreOf, ok_iff, checkedMul_eq_some, checkedDiv_eq_some, checkedAdd_eq_some, hb]
  constructor
  · rintro ⟨_, limit, hl, _, -, _, ⟨hz, -⟩, -⟩
    simp only [scoreLimitOf, ok_iff, checkedMul_eq_some] at hl
    obtain ⟨_, ⟨-, ht⟩, -⟩ := hl
    exact ⟨Nat.pos_of_ne_zero hz, ht⟩
  · rintro ⟨hz, ht⟩
    obtain ⟨limit, hl⟩ : ∃ limit, scoreLimitOf target (min sum committed) = .ok limit := by
      simp only [scoreLimitOf, ok_iff, checkedMul_eq_some, checkedDiv_eq_some]
      exact ⟨_, _, ⟨rfl, ht⟩, _, ⟨by decide, rfl⟩, by decide, rfl⟩
    -- the limit was divided by both scales, which leaves room for the rest of the calculation
    have hlt : limit < 2 ^ 97 := by
      have := scoreLimitOf_lt hl
      omega
    have hmin := min_le_left limit ws.selfRewardWeight
    have hbonus := PerThing.mulFloor_le T.busyWeightBonus (min limit ws.selfRewardWeight)
    refine ⟨_, limit, hl, _, ⟨rfl, ?_⟩, _, ⟨hz.ne', rfl⟩, _, ⟨rfl, ?_⟩, rfl⟩
    · exact (Nat.mul_lt_mul'' (hle.trans_lt hc) (hmin.trans_lt hlt)).trans (by decide)
    · omega

/-- A sum and the sum with bonus can be scored in a pool, if the pool is committed to: what is scored is not
zero, and its product with the target is a number of 256 bits. -/
abbrev Scorable (s : State T) (c : CommitmentId) (q : PoolId) (v : Metric × Metric) : Prop :=
  v.1 ≤ v.2 ∧ ∀ committed ∈ s.computeCommitments.lookup (c, q),
    0 < min v.1 committed ∧ targetIn s q * min v.1 committed < 2 ^ 256

def scoreEntry (s : State T) (c : CommitmentId) (q : PoolId) (v : Metric × Metric) :
    SlidingBuffer (ℕ × ℕ) :=
  (StorageMap.getD s.scores (c, q) default).set s.currentCycle.epoch
    ((scoreOf T (rememberedWeights s c) (targetIn s q) (StorageMap.getD s.computeCommitments (c, q) 0)
      v.1 (v.2 - v.1)).toOption.getD default)

theorem scoreEntry_epoch {b : SlidingBuffer (ℕ × ℕ)} (hb : s.scores.lookup (c, q) = some b)
    (hl : b.epoch ≤ s.currentCycle.epoch) : (scoreEntry s c q v).epoch = s.currentCycle.epoch := by
  rw [scoreEntry, StorageMap.getD, hb]
  exact SlidingBuffer.epoch_set hl _

/-- The second state is like the first one in what the pools are scored by. -/
structure SameTerms (s t : State T) (c : CommitmentId) (ps : List PoolId) : Prop where
  bounded : ∀ k committed, s.computeCommitments.lookup k = some committed → committed < 2 ^ 128
  cycle : t.currentCycle = s.currentCycle
  committed : t.computeCommitments = s.computeCommitments
  target : ∀ q ∈ ps, targetIn t q = targetIn s q
  scores : ∀ q ∈ ps, t.scores.lookup (c, q) = s.scores.lookup (c, q)

theorem scorePool_of_scorable (ht : SameTerms s t c (q :: ps)) (hn : q ∉ ps) (h : Scorable s c q v) :
    ∃ t', scorePool t s.currentCycle.epoch c (rememberedWeights s c) q v.1 v.2 = .ok t' ∧
      SameTerms s t' c ps ∧ ∀ p, (c, p) ∈ s.computeCommitments →
        t'.scores.lookup (c, p) = if p = q then some (scoreEntry s c q v) else t.scores.lookup (c, p) := by
  have hq := ht.target q List.mem_cons_self
  have hsc := ht.scores q List.mem_cons_self
  have hrest : SameTerms s t c ps := ⟨ht.bounded, ht.cycle, ht.committed,
    fun q' hq' => ht.target q' (List.mem_cons_of_mem _ hq'),
    fun q' hq' => ht.scores q' (List.mem_cons_of_mem _ hq')⟩
  simp only [scorePool, ok_iff, whenSome_eq_ok, checkedSub_eq_some]
  cases hc : s.computeCommitments.lookup (c, q) with
  | none =>
    refine ⟨t, ⟨_, ⟨h.1, rfl⟩, .inl ⟨by rw [ht.committed, hc], rfl⟩⟩, hrest, fun p hp => ?_⟩
    rw [if_neg]
    rintro rfl
    exact AList.lookup_eq_none.mp hc hp
  | some committed =>
    obtain ⟨score, hs⟩ : ∃ score, scoreOf T (rememberedWeights s c) (targetIn s q) committed v.1
        (v.2 - v.1) = .ok score := (scoreOf_ok_iff (ht.bounded _ _ hc)).mpr (h.2 committed hc)
    rw [← hq, targetIn, ht.cycle] at hs
    refine ⟨_, ⟨_, ⟨h.1, rfl⟩, .inr ⟨committed, by rw [ht.committed, hc], score, hs, rfl⟩⟩, ?_, ?_⟩
    · have hne : ∀ q' ∈ ps, q' ≠ q := fun q' hq' he => hn (he ▸ hq')
      refine ⟨ht.bounded, ht.cycle, ht.committed, fun q' hq' => ?_, fun q' hq' => ?_⟩
      · rw [← hrest.target q' hq', targetIn, getD_insert, if_neg (hne q' hq')]
        rfl
      · rw [lookup_insert_eq, if_neg fun he => hne q' hq' (Prod.mk.inj he).2]
        exact hrest.scores q' hq'
    · intro p hp
      have hg : StorageMap.getD s.computeCommitments (c, q) 0 = committed := by
        rw [StorageMap.getD, hc]
        rfl
      rw [lookup_insert_eq, scoreEntry, hg, ← hq, targetIn, ht.cycle, hs, StorageMap.getD, hsc]
      simp only [Prod.mk.injEq, true_and]
      rfl

theorem scorePool_of_not_scorable (ht : SameTerms s t c (q :: ps)) (h : ¬ Scorable s c q v) :
    ∃ e, scorePool t s.currentCycle.epoch c (rememberedWeights s c) q v.1 v.2 = .error e := by
  cases hp : scorePool t s.currentCycle.epoch c (rememberedWeights s c) q v.1 v.2 with
  | error e => exact ⟨e, rfl⟩
  | ok t' =>
    refine absurd ?_ h
    simp only [scorePool, ok_iff, whenSome_eq_ok, checkedSub_eq_some] at hp
    obtain ⟨_, ⟨hl, rfl⟩, hc⟩ := hp
    refine ⟨hl, fun committed hm => ?_⟩
    have hb := ht.bounded _ _ hm
    rw [← ht.committed] at hm
    rcases hc with ⟨hn, -⟩ | ⟨committed', hm', score, hs, -⟩
    · rw [hn] at hm
      cases hm
    · obtain rfl := Option.mem_unique hm hm'
      rw [← ht.target q List.mem_cons_self, targetIn, ht.cycle]
      exact (scoreOf_ok_iff hb).mp ⟨score, hs⟩

theorem scorePools_scores {f : PoolId → Metric × Metric} (ht : SameTerms s t c ps) (hn : ps.Nodup)
    (hp : (c, p) ∈ s.computeCommitments) :
    (scorePools s.currentCycle.epoch c (rememberedWeights s c) t
        (ps.map fun q => (q, f q))).scores.lookup (c, p) =
      if p ∈ ps.takeWhile (fun q => Scorable s c q (f q)) then some (scoreEntry s c p (f p))
      else t.scores.lookup (c, p) := by
  induction ps generalizing t with
  | nil => rfl
  | cons q ps ih =>
    obtain ⟨hq, hn⟩ := List.nodup_cons.mp hn
    rw [List.map_cons, scorePools, List.takeWhile_cons]
    by_cases h : Scorable s c q (f q)
    · obtain ⟨t', hk, ht', hs⟩ := scorePool_of_scorable ht hq h
      rw [hk, if_pos (decide_eq_true h)]
      rw [ih ht' hn, hs p hp]
      by_cases he : p = q
      · subst he
        have hnot : p ∉ ps.takeWhile fun q => Scorable s c q (f q) := fun hm =>
          hq ((List.takeWhile_sublist _).mem hm)
        rw [if_neg hnot, if_pos rfl, if_pos List.mem_cons_self]
      · simp only [List.mem_cons, he, false_or, if_false]
    · obtain ⟨e, hk⟩ := scorePool_of_not_scorable ht h
      rw [hk, if_neg fun hd => h (of_decide_eq_true hd)]
      rfl

/-- The commitment that backs the manager was scored in this epoch. -/
def ScoredNow (s : State T) (m : ManagerId) (c : CommitmentId) : Prop :=
  s.backingLookup.lookup m = some c ∧
    ∃ cm ∈ s.commitments.lookup c, s.currentCycle.epoch ≤ cm.lastScoringEpoch

theorem reward_scores {f : PoolId → Metric × Metric} (pools : List PoolId) (total : ℕ)
    (hb : s.backingLookup.lookup m = some c) (hc : s.commitments.lookup c = some cm)
    (hl : cm.lastScoringEpoch < s.currentCycle.epoch)
    (hbo : ∀ k committed, s.computeCommitments.lookup k = some committed → committed < 2 ^ 128)
    (hn : ps.Nodup) : (∀ p, (c, p) ∈ s.computeCommitments →
      (reward s (ps.map fun q => (q, f q)) m pools total).1.scores.lookup (c, p) =
        if p ∈ ps.takeWhile (fun q => Scorable s c q (f q)) then some (scoreEntry s c p (f p))
        else s.scores.lookup (c, p)) ∧
      ScoredNow (reward s (ps.map fun q => (q, f q)) m pools total).1 m c := by
  unfold reward
  rw [hb]
  obtain ⟨cm', es, budgets, payouts, hsc, hs, hq⟩ := rewardCommitment_eq pools _ hc hl
  rw [hq]
  constructor
  · exact fun p hp => scorePools_scores ⟨hbo, rfl, rfl,
      fun q _ => hs ▸ (distribute_shares s _ c _ pools q).target _, fun _ _ => rfl⟩ hn hp
  · obtain ⟨_, _, hr⟩ := scorePools_rates s.currentCycle.epoch c (rememberedWeights s c)
      { s with stakeBasedRewards := budgets, payouts, history := es ++ s.history }
      (ps.map fun q => (q, f q))
    rw [hr]
    exact ⟨hb, cm', AList.lookup_insert _, hsc.lastScoringEpoch.ge⟩

end Scores

section Heartbeats

variable {A : Type} {T : Config A} {s s₁ s₂ : State T} {c : CommitmentId} {m : ManagerId} {p q : PoolId}
  {ps : List PoolId}

/-- The manager has a sum of the epoch before in the pool that no heartbeat has revealed. -/
abbrev Unseen (s : State T) (m : ManagerId) (p : PoolId) : Prop :=
  (sumAt s m p).epoch + 1 = s.currentCycle.epoch

def unseenOf (s : State T) (m : ManagerId) (ps : List PoolId) : List PoolId :=
  (ps.filter (Unseen s m ·)).eraseDups

theorem unseen_of_mem (h : q ∈ unseenOf s m ps) : Unseen s m q :=
  of_decide_eq_true (List.mem_filter.mp (List.mem_eraseDups.mp h)).2

theorem unseenOf_skip (hn : ¬ Unseen s m p) : unseenOf s m (p :: ps) = unseenOf s m ps := by
  unfold unseenOf
  rw [List.filter_cons_of_neg (by simpa using hn)]

variable [DecidableEq A] {proc mgr : A} {metrics : List MetricInput} {beat : A × List MetricInput}
  {l : List (A × List MetricInput)}

/-- The pools whose sums of the epoch before a heartbeat reveals, if it is the first one to reveal any. -/
def revealed (s : State T) (m : ManagerId) (beat : A × List MetricInput) : List PoolId :=
  unseenOf s m (named s beat.1 beat.2)

def scoredPools (s : State T) (c : CommitmentId) (m : ManagerId) (beat : A × List MetricInput) :
    List PoolId :=
  (revealed s m beat).takeWhile fun q => Scorable s c q (sumAt s m q).cur

def Stored (proc : A) (m : ManagerId) (p : PoolId) (s s₁ : State T) : Prop :=
  ∃ metric metricPools f, s₁ = { s with
    metrics := s.metrics.insert (proc, p) ⟨s.currentCycle.epoch, metric⟩
    metricPools
    metricsEpochSum := s.metricsEpochSum.insert (m, p) ((sumAt s m p).mutate s.currentCycle.epoch f false) }

theorem storeMetric_stored (s : State T) (proc : A) (m : ManagerId) (p : PoolId) (previous : Option Metric)
    (metric : Metric) (bonus : Bool) (info : CommitMetricsInfo) :
    Stored proc m p s (storeMetric s proc m true p previous metric bonus info).1 :=
  ⟨metric, updateMetricsEpochSum_writes _ m p metric bonus⟩

theorem Stored.sumAt (h : Stored proc m p s s₁) (hne : q ≠ p) : sumAt s₁ m q = sumAt s m q := by
  obtain ⟨metric, pools, f, rfl⟩ := h
  rw [Compute.sumAt, getD_insert, if_neg fun he => hne (Prod.mk.inj he).2]
  rfl

theorem Stored.unseen (h : Stored proc m p s s₁) : Unseen s₁ m q ↔ q ≠ p ∧ Unseen s m q := by
  by_cases hp : q = p
  · obtain ⟨metric, pools, f, rfl⟩ := h
    refine ⟨fun hu => ?_, fun hu => absurd hp hu.1⟩
    rw [hp, Unseen, Compute.sumAt, getD_insert, if_pos rfl, SlidingBuffer.mutate] at hu
    split_ifs at hu <;> dsimp only at hu <;> omega
  · rw [Unseen, h.sumAt hp]
    obtain ⟨metric, pools, f, rfl⟩ := h
    exact (and_iff_right hp).symm

theorem Stored.unseenOf (h : Stored proc m p s s₁) (hu : Unseen s m p) :
    unseenOf s m (p :: ps) = p :: unseenOf s₁ m ps := by
  unfold Compute.unseenOf
  rw [List.filter_cons_of_pos (p := fun q => decide (Unseen s m q)) (decide_eq_true hu),
    List.eraseDups_cons, List.filter_filter]
  refine congrArg (fun l => p :: l.eraseDups) (List.filter_congr fun q _ => ?_)
  simp only [h.unseen, Bool.decide_and, decide_not]
  rfl

/-- Metrics of this epoch are stored only for pools whose sums are revealed. -/
def Settled (s : State T) (m : ManagerId) : Prop :=
  ∀ proc p commit, s.metrics.lookup (proc, p) = some commit → Unseen s m p →
    commit.epoch < s.currentCycle.epoch

theorem Settled.store (hs : Settled s m) (h : Stored proc m p s s₁) : Settled s₁ m := by
  intro proc' q commit hl hu
  obtain ⟨hne, hu'⟩ := h.unseen.mp hu
  obtain ⟨metric, pools, f, rfl⟩ := h
  rw [lookup_insert_eq, if_neg fun he => hne (Prod.mk.inj he).2] at hl
  exact hs proc' q commit hl hu'

def Noted (s s' : State T) : Prop :=
  ∃ metrics metricPools metricsEpochSum processors world managerMetricRewards, s' = { s with
    metrics, metricPools, metricsEpochSum, processors, world, managerMetricRewards }

/-- What heartbeats that reveal nothing leave as it is. -/
structure Waits (m : ManagerId) (s s' : State T) : Prop where
  writes : Noted s s'
  unseen : ∀ p, Unseen s' m p ↔ Unseen s m p
  sums : ∀ p, Unseen s m p → sumAt s' m p = sumAt s m p
  revealed : ∀ beat, revealed s' m beat = revealed s m beat
  settled : Settled s m → Settled s' m
  active : ∀ proc, (heartbeatProcessor s proc).status = .active →
    (heartbeatProcessor s' proc).status = .active

theorem Waits.refl (s : State T) : Waits m s s :=
  ⟨⟨_, _, _, _, _, _, rfl⟩, fun _ => .rfl, fun _ _ => rfl, fun _ => rfl, id, fun _ => id⟩

theorem Waits.trans (h : Waits m s s₁) (h' : Waits m s₁ s₂) : Waits m s s₂ := by
  refine ⟨?_, fun p => (h'.unseen p).trans (h.unseen p),
    fun p hp => (h'.sums p ((h.unseen p).mpr hp)).trans (h.sums p hp),
    fun beat => (h'.revealed beat).trans (h.revealed beat), fun hs => h'.settled (h.settled hs),
    fun proc ha => h'.active proc (h.active proc ha)⟩
  obtain ⟨_, _, _, _, _, _, rfl⟩ := h.writes
  obtain ⟨_, _, _, _, _, _, rfl⟩ := h'.writes
  exact ⟨_, _, _, _, _, _, rfl⟩

theorem filterMap_kerase {K V α : Type*} [DecidableEq K] {f : (Sigma fun _ : K => V) → Option α} {k : K}
    (hk : ∀ v, f ⟨k, v⟩ = none) (l : List (Sigma fun _ : K => V)) :
    (l.kerase k).filterMap f = l.filterMap f := by
  induction l with
  | nil => rfl
  | cons e l ih =>
    by_cases he : k = e.1
    · subst he
      rw [List.kerase_cons_eq rfl, List.filterMap_cons_none (hk e.2)]
    · rw [List.kerase_cons_ne he, List.filterMap_cons, List.filterMap_cons, ih]

theorem Stored.waits (h : Stored proc m p s s₁) (hn : ¬ Unseen s m p) : Waits m s s₁ := by
  have hne : ∀ q, Unseen s m q → q ≠ p := fun q hu he => hn (he ▸ hu)
  have hu : ∀ q, Unseen s₁ m q ↔ Unseen s m q := fun q => h.unseen.trans (and_iff_right_of_imp (hne q))
  have hr : ∀ beat, revealed s₁ m beat = revealed s m beat := by
    intro beat
    simp only [revealed, Compute.unseenOf, hu]
    obtain ⟨metric, pools, f, rfl⟩ := h
    unfold named iterPrefix
    split_ifs
    · rfl
    · simp only [List.filter_map, List.filter_filterMap, AList.entries_insert]
      refine congrArg List.eraseDups (congrArg (List.map _) ((List.filterMap_cons_none ?_).trans
        (filterMap_kerase (fun v => ?_) _)))
      all_goals
        split_ifs
        · simp [hn]
        · rfl
  refine ⟨?_, hu, fun q hq => h.sumAt (hne q hq), hr, fun hs => hs.store h, fun proc' ha => ?_⟩
  · obtain ⟨metric, pools, f, rfl⟩ := h
    exact ⟨_, _, _, _, _, _, rfl⟩
  · obtain ⟨metric, pools, f, rfl⟩ := h
    exact ha

theorem Stores.reveals {x y : State T × CommitMetricsInfo} (h : Stores proc m true ps x y)
    (hs : Settled x.1 m) : (unseenOf x.1 m ps).Nodup ∧
      y.2.previousSums = x.2.previousSums ++
        ((unseenOf x.1 m ps).map fun p => (p, (sumAt x.1 m p).cur)) ∧
      (unseenOf x.1 m ps = [] → Waits m x.1 y.1) := by
  induction h with
  | done x => exact ⟨List.nodup_nil, (List.append_nil _).symm, fun _ => .refl _⟩
  | @skip p ps s info x ho hr ih =>
    have hn : ¬ Unseen s m p := by
      intro hu
      cases hl : s.metrics.lookup (proc, p) with
      | none => exact ho (by rw [hl]; rfl)
      | some commit => exact ho (by rw [hl]; exact decide_eq_true (hs proc p commit hl hu))
    rw [unseenOf_skip hn]
    exact ih hs
  | @store p ps s info x previous metric bonus hr ih =>
    have hst := storeMetric_stored s proc m p previous metric bonus info
    obtain ⟨hno, hx, hw⟩ := ih (hs.store hst)
    have hc : (storeMetric s proc m true p previous metric bonus info).2.previousSums =
        info.previousSums ++ if Unseen s m p then [(p, (sumAt s m p).cur)] else [] :=
      countMetric_previousSums ..
    rw [hc] at hx
    generalize (storeMetric s proc m true p previous metric bonus info).1 = s₁ at *
    by_cases hu : Unseen s m p
    · have hne : ∀ q ∈ unseenOf s₁ m ps, q ≠ p := fun q hq => (hst.unseen.mp (unseen_of_mem hq)).1
      rw [hst.unseenOf hu]
      refine ⟨List.nodup_cons.mpr ⟨fun hm => hne p hm rfl, hno⟩, ?_, fun hn =>
        absurd hn (List.cons_ne_nil _ _)⟩
      rw [hx, if_pos hu, List.map_cons, List.append_assoc]
      refine congrArg _ (congrArg _ (List.map_congr_left fun q hq => ?_))
      rw [hst.sumAt (hne q hq)]
    · have hwa := hst.waits hu
      have hus : unseenOf s₁ m ps = unseenOf s m ps := by
        simp only [unseenOf, hwa.unseen]
      rw [unseenOf_skip hu]
      rw [hus] at hno hx hw
      refine ⟨hno, ?_, fun hn => hwa.trans (hw hn)⟩
      rw [hx, if_neg hu, List.append_nil]
      refine congrArg _ (List.map_congr_left fun q hq => ?_)
      rw [hwa.sums q (unseen_of_mem hq)]

def recorded (s : State T) (proc : A) (state : ProcessorState) : State T :=
  { s with processors := s.processors.insert proc state }

theorem doCommit_active (ha : (heartbeatProcessor s proc).status = .active) (m : ManagerId)
    (metrics : List MetricInput) (pools : List PoolId) :
    ∃ (state : ProcessorState) (total : ℕ), state.status = .active ∧
      doCommit s proc m metrics pools = if (commitMetrics s proc m true metrics).2.previousSums = [] then
        (recorded (commitMetrics s proc m true metrics).1 proc state, default)
      else reward (recorded (commitMetrics s proc m true metrics).1 proc state)
        (commitMetrics s proc m true metrics).2.previousSums m pools total := by
  unfold doCommit rewardActive
  dsimp only
  rw [decide_eq_true ha, if_neg (by decide)]
  exact ⟨{ heartbeatProcessor s proc with rewardContribution :=
    ((commitMetrics s proc m true metrics).2.computeRewardContribution _).getD _ }, _, ha, rfl⟩

theorem commit_waits (hs : Settled s m) (ha : (heartbeatProcessor s proc).status = .active)
    (hr : revealed s m (proc, metrics) = []) : Waits m s (commit s proc mgr m metrics).1 := by
  obtain ⟨-, hx, hw⟩ := (commitMetrics_stores s proc m true metrics).reveals hs
  have hn : (commitMetrics s proc m true metrics).2.previousSums = [] := by
    rw [hx]
    change [] ++ (revealed s m (proc, metrics)).map _ = []
    rw [hr]
    rfl
  have hw : Waits m s (commitMetrics s proc m true metrics).1 := hw hr
  obtain ⟨world, rewards, -, hq⟩ := commit_paid s proc mgr m metrics
  obtain ⟨state, total, hst, hd⟩ := doCommit_active ha m metrics _
  rw [hq, hd, if_pos hn]
  refine ⟨?_, hw.unseen, hw.sums, hw.revealed, hw.settled, fun proc' ha' => ?_⟩
  · obtain ⟨_, _, _, _, _, _, he⟩ := hw.writes
    rw [he]
    exact ⟨_, _, _, _, _, _, rfl⟩
  · have hp := hw.active proc' ha'
    unfold heartbeatProcessor recorded at *
    dsimp only at hp ⊢
    rw [lookup_insert_eq]
    split_ifs
    · rw [Option.getD_some, hst]
    · exact hp

/-- No metric was committed in this epoch yet, and the commitment that backs the manager was not scored.
What it is committed to are numbers of 128 bits. -/
structure EpochStart (s : State T) (m : ManagerId) (c : CommitmentId) : Prop where
  backing : s.backingLookup.lookup m = some c
  unscored : ∃ cm ∈ s.commitments.lookup c, cm.lastScoringEpoch < s.currentCycle.epoch
  metrics : ∀ e ∈ s.metrics.entries, e.2.epoch < s.currentCycle.epoch
  scores : ∀ e ∈ s.scores.entries, e.2.epoch < s.currentCycle.epoch
  bounded : ∀ e ∈ s.computeCommitments.entries, e.2 < 2 ^ 128

theorem EpochStart.settled (h : EpochStart s m c) : Settled s m :=
  fun _ _ _ hl _ => h.metrics _ (mem_entries_iff.mpr hl)

theorem commit_reveals (mgr : A) (hst : EpochStart s m c) (hw : Waits m s s₁)
    (ha : (heartbeatProcessor s₁ proc).status = .active) (hr : revealed s m (proc, metrics) ≠ []) :
    (∀ p, (c, p) ∈ s.computeCommitments → (commit s₁ proc mgr m metrics).1.scores.lookup (c, p) =
      if p ∈ scoredPools s c m (proc, metrics) then some (scoreEntry s c p (sumAt s m p).cur)
      else s.scores.lookup (c, p)) ∧ ScoredNow (commit s₁ proc mgr m metrics).1 m c := by
  obtain ⟨hno, hx, -⟩ := (commitMetrics_stores s₁ proc m true metrics).reveals (hw.settled hst.settled)
  have hx : (commitMetrics s₁ proc m true metrics).2.previousSums =
      (revealed s m (proc, metrics)).map fun q => (q, (sumAt s m q).cur) := by
    rw [hx]
    change [] ++ (revealed s₁ m (proc, metrics)).map _ = _
    rw [List.nil_append, hw.revealed]
    refine List.map_congr_left fun q hq => ?_
    rw [hw.sums q (unseen_of_mem hq)]
  change (revealed s₁ m (proc, metrics)).Nodup at hno
  rw [hw.revealed] at hno
  obtain ⟨world, rewards, -, hq⟩ := commit_paid s₁ proc mgr m metrics
  obtain ⟨state, total, -, hd⟩ := doCommit_active ha m metrics _
  rw [hq, hd, hx, if_neg (by simpa using hr)]
  obtain ⟨_, _, _, hcm⟩ := (commitMetrics_counted s₁ proc m true metrics).writes
  obtain ⟨ms, pools, es, processors, w, r, hn⟩ :
      Noted s (recorded (commitMetrics s₁ proc m true metrics).1 proc state) := by
    obtain ⟨_, _, _, _, _, _, rfl⟩ := hw.writes
    rw [hcm]
    exact ⟨_, _, _, _, _, _, rfl⟩
  obtain ⟨cm, hc, hl⟩ := hst.unscored
  rw [hn]
  exact reward_scores (s := { s with
    metrics := ms
    metricPools := pools
    metricsEpochSum := es
    processors
    world := w
    managerMetricRewards := r }) _ total hst.backing hc hl (fun _ _ hm => hst.bounded _ (mem_entries_iff.mpr hm)) hno

theorem commit_of_scoredNow (h : ScoredNow s m c) (proc mgr : A) (metrics : List MetricInput) :
    (commit s proc mgr m metrics).1.scores = s.scores ∧
      ScoredNow (commit s proc mgr m metrics).1 m c := by
  obtain ⟨s₁, processors, s₂, world, rewards, hc, hr, -, hq⟩ := commit_writes s proc mgr m metrics
  obtain ⟨_, _, _, rfl⟩ := hc.writes
  rw [hq]
  cases hr with
  | nothing => exact ⟨rfl, h⟩
  | scored hb hf hl _ =>
    obtain ⟨hc, cm, hm, hle⟩ := h
    obtain rfl := Option.mem_unique hc hb
    obtain rfl := Option.mem_unique hm hf
    exact absurd hle (Nat.not_le.mpr hl)

def beats (s : State T) (manager : A) (m : ManagerId) (l : List (A × List MetricInput)) : State T :=
  l.foldl (fun s beat => (commit s beat.1 manager m beat.2).1) s

theorem beats_of_scoredNow (h : ScoredNow s m c) (mgr : A) (l : List (A × List MetricInput)) :
    (beats s mgr m l).scores = s.scores := by
  induction l generalizing s with
  | nil => rfl
  | cons beat rest ih =>
    obtain ⟨hs, hc⟩ := commit_of_scoredNow h beat.1 mgr beat.2
    exact (ih hc).trans hs

/-- The pools that the first heartbeat to reveal a sum scores. -/
def firstScored (s : State T) (c : CommitmentId) (m : ManagerId) (l : List (A × List MetricInput)) :
    List PoolId :=
  (l.find? (revealed s m · ≠ [])).elim [] (scoredPools s c m)

theorem firstScored_cons (hr : revealed s m beat ≠ []) :
    firstScored s c m (beat :: l) = scoredPools s c m beat := by
  rw [firstScored, List.find?_cons_of_pos (by simpa using hr)]
  rfl

theorem beats_scores (hst : EpochStart s m c) (hw : Waits m s s₁)
    (ha : ∀ beat ∈ l, (heartbeatProcessor s beat.1).status = .active)
    (hp : (c, p) ∈ s.computeCommitments) (mgr : A) : (beats s₁ mgr m l).scores.lookup (c, p) =
      if p ∈ firstScored s c m l then some (scoreEntry s c p (sumAt s m p).cur)
      else s.scores.lookup (c, p) := by
  induction l generalizing s₁ with
  | nil =>
    obtain ⟨_, _, _, _, _, _, rfl⟩ := hw.writes
    rfl
  | cons beat rest ih =>
    obtain ⟨proc, metrics⟩ := beat
    have hact := hw.active proc (ha _ List.mem_cons_self)
    by_cases hr : revealed s m (proc, metrics) = []
    · have hwait : Waits m s₁ (commit s₁ proc mgr m metrics).1 :=
        commit_waits (hw.settled hst.settled) hact ((hw.revealed _).trans hr)
      have hf : firstScored s c m ((proc, metrics) :: rest) = firstScored s c m rest := by
        rw [firstScored, List.find?_cons_of_neg (by simpa using hr)]
        rfl
      rw [hf]
      exact ih (hw.trans hwait) fun beat hb => ha beat (List.mem_cons_of_mem _ hb)
    · obtain ⟨hs, hsc⟩ := commit_reveals mgr hst hw hact hr
      rw [firstScored_cons hr, ← hs p hp]
      exact congrArg (AList.lookup (c, p)) (beats_of_scoredNow hsc mgr rest)

/-- Two pools that account `2` is committed to; processors `3` and `5` of its manager have committed to both
in the epoch before. -/
def twoPools : List (Op mock) :=
  [newPool 0 50, newPool 1 50, .dispatch .root .enableInflation, signed 2 (.offerBacking 1),
    signed 1 (.acceptBackingOffer 2), .block, .heartbeat 3 1 1 [(1, 10, 1), (2, 10, 1)],
    .heartbeat 5 1 1 [(1, 10, 1), (2, 10, 1)], .block,
    signed 2 (.commitCompute (10 * unit) 36 [⟨1, 8 * 10 ^ 18⟩, ⟨2, 8 * 10 ^ 18⟩] PerThing.zero false),
    .heartbeat 3 1 1 [(1, 10, 1), (2, 10, 1)], .heartbeat 5 1 1 [(1, 10, 1), (2, 10, 1)], .block]

def newEpoch : State mock := after twoPools

def bothPools : List (ℕ × List MetricInput) := [(3, [(1, 10, 1), (2, 10, 1)]), (5, []), (5, [(9, 7, 1)])]

def onePoolEach : List (ℕ × List MetricInput) := [(3, [(1, 10, 1)]), (5, [(2, 10, 1)])]

def scoreIn (s : State mock) (p : PoolId) : Option (ℕ × ℕ) :=
  (s.scores.lookup (0, p)).map (·.get s.currentCycle.epoch)

end Heartbeats

end Acurast.Compute
