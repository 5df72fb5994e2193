import Acurast.Compute.Counting

/-! The scores of the commitments and the budgets they share in. The total score of a pool covers the
scores of the epoch, unless it is saturated. -/

namespace Acurast.Compute

open Base

variable {A : Type} {T : Config A} {s s' : State T} {mt mt' mt₁ : Meter A} {c : CommitmentId} {p : PoolId}

structure SameShares (b b' : SlidingBuffer RewardBudget) : Prop where
  epoch : b'.epoch = b.epoch
  total : ∀ x, (b'.get x).total = (b.get x).total
  totalScore : ∀ x, (b'.get x).totalScore = (b.get x).totalScore
  target : ∀ x, (b'.get x).targetWeightPerCompute = (b.get x).targetWeightPerCompute

theorem SameShares.refl (b : SlidingBuffer RewardBudget) : SameShares b b :=
  ⟨rfl, fun _ => rfl, fun _ => rfl, fun _ => rfl⟩

theorem SameShares.trans {b₁ b₂ b₃ : SlidingBuffer RewardBudget} (h : SameShares b₁ b₂)
    (h' : SameShares b₂ b₃) : SameShares b₁ b₃ where
  epoch := h'.epoch.trans h.epoch
  total := fun x => (h'.total x).trans (h.total x)
  totalScore := fun x => (h'.totalScore x).trans (h.totalScore x)
  target := fun x => (h'.target x).trans (h.target x)

theorem distributePool_shares (e : ℕ) (rate : Perbill) (ws : CommitmentWeights)
    (score scoreWithBonus : ℕ) (p q : PoolId) (d : Distribution) :
    SameShares (StorageMap.getD d.stakeBasedRewards q default) (StorageMap.getD
      (distributePool e rate ws score scoreWithBonus p d).1.stakeBasedRewards q default) := by
  unfold distributePool
  dsimp only
  split_ifs with hn
  · exact .refl _
  · split
    · exact .refl _
    · split
      · exact .refl _
      · split
        · exact .refl _
        · dsimp only
          rw [getD_insert]
          by_cases hq : q = p
          · -- a budget that is not zero is one that the buffer holds
            have hh := SlidingBuffer.epoch_of_get_ne_default
              (b := StorageMap.getD d.stakeBasedRewards p default) (fun hd => hn (by
                rw [hd]
                exact .inl rfl))
            rw [if_pos hq, hq]
            obtain ⟨hp, hg⟩ := SlidingBuffer.get_mutate_held hh _
            refine ⟨hp, fun x => ?_, fun x => ?_, fun x => ?_⟩
            all_goals
              rw [hg]
              split_ifs with hx
              · rw [hx]
              · rfl
          · rw [if_neg hq]
            exact .refl _

theorem distributePools_shares (s : State T) (e : ℕ) (c : CommitmentId) (rate : Perbill)
    (ws : CommitmentWeights) (pools : List PoolId) (d : Distribution) (q : PoolId) :
    SameShares (StorageMap.getD d.stakeBasedRewards q default) (StorageMap.getD
      (distributePools s e c rate ws pools d).1.stakeBasedRewards q default) := by
  induction pools generalizing d with
  | nil => exact .refl _
  | cons p rest ih =>
    unfold distributePools
    dsimp only
    split
    · next d₁ h => exact (h ▸ distributePool_shares e rate ws _ _ p q d).trans (ih d₁)
    · next d₁ h => exact h ▸ distributePool_shares e rate ws _ _ p q d

theorem applyDistribution_budgets (s : State T) (c : CommitmentId) (cm : Commitment)
    (created weight : ℕ) (d : Distribution) (done : Bool) (raised : Result (MemoryBuffer ℕ PoolReward)) :
    (applyDistribution s c cm created weight d done raised).1.stakeBasedRewards =
        d.stakeBasedRewards ∧
      (applyDistribution s c cm created weight d done raised).1.payouts = d.payouts := by
  unfold applyDistribution
  split_ifs
  · exact ⟨rfl, rfl⟩
  · exact ⟨rfl, rfl⟩
  · cases raised with
    | error e => exact ⟨rfl, rfl⟩
    | ok poolRewards => exact ⟨rfl, rfl⟩

theorem distribute_shares (s : State T) (e : ℕ) (c : CommitmentId) (cm : Commitment)
    (pools : List PoolId) (q : PoolId) : SameShares (StorageMap.getD s.stakeBasedRewards q default)
      (StorageMap.getD (distribute s e c cm pools).1.stakeBasedRewards q default) := by
  unfold distribute
  cases cm.stake with
  | none => exact .refl _
  | some st =>
    rw [(applyDistribution_budgets ..).1]
    exact distributePools_shares s e c cm.commission
      ((cm.weights.getLatest e).getD default) pools ⟨s.stakeBasedRewards, st, 0, 0, s.payouts⟩ q

/-- A score and the score with the bonus, far from the largest number of their type, as both were
divided by the scales of the metrics and of the weights. -/
structure ScoreBounds (v : ℕ × ℕ) : Prop where
  le : v.1 ≤ v.2
  score : v.1 * 10 ^ 48 < 2 ^ 256
  bonus : (v.2 - v.1) * 10 ^ 48 < 2 ^ 256

theorem ScoreBounds.default : ScoreBounds default := by
  refine ⟨le_rfl, ?_, ?_⟩
  · decide
  · decide

variable {target : ℕ} {metricSum : Metric} {v : ℕ × ℕ} {ws : CommitmentWeights}

theorem scoreLimitOf_lt {limit : ℕ} {metric : Metric} (h : scoreLimitOf target metric = .ok limit) :
    limit * 10 ^ 48 < 2 ^ 256 := by
  simp only [scoreLimitOf, ok_iff, checkedMul_eq_some, checkedDiv_eq_some] at h
  obtain ⟨product, ⟨rfl, hl⟩, quotient, ⟨-, rfl⟩, -, rfl⟩ := h
  refine lt_of_le_of_lt ?_ hl
  calc target * metric / fixedU128Decimals / perTokenDecimals * 10 ^ 48
      = target * metric / fixedU128Decimals / perTokenDecimals * perTokenDecimals * fixedU128Decimals := by
        rw [Nat.mul_assoc]
        rfl
    _ ≤ target * metric / fixedU128Decimals * fixedU128Decimals :=
        Nat.mul_le_mul_right _ (Nat.div_mul_le_self _ _)
    _ ≤ target * metric := Nat.div_mul_le_self _ _

theorem scoreOf_bounds {committed bonusSum : Metric}
    (h : scoreOf T ws target committed metricSum bonusSum = .ok v) : ScoreBounds v := by
  simp only [scoreOf, ok_iff, checkedAdd_eq_some] at h
  obtain ⟨limit, hli, product, -, bonus, -, total, ⟨rfl, -⟩, rfl⟩ := h
  have hl := scoreLimitOf_lt hli
  refine ⟨Nat.le_add_right _ _, ?_, ?_⟩
  · exact lt_of_le_of_lt (Nat.mul_le_mul_right _ (min_le_left _ _)) hl
  · rw [Nat.add_sub_cancel_left]
    refine lt_of_le_of_lt (Nat.mul_le_mul_right _ ?_) hl
    exact (min_le_left _ _).trans ((PerThing.mulFloor_le _ _).trans (min_le_left _ _))

def Meter.scored (mt : Meter A) (c : CommitmentId) (p : PoolId) (v : ℕ × ℕ) : Meter A :=
  { mt with
    scores := mt.scores.insert (c, p) ((StorageMap.getD mt.scores (c, p) default).set mt.epoch v)
    stakeBasedRewards := mt.stakeBasedRewards.insert p ((mt.budgets p).mutate mt.epoch (fun budget =>
      { budget with totalScore := saturatingAdd 256 budget.totalScore v.2 }) false) }

theorem scorePool_meter {withBonus : Metric}
    (h : scorePool s s.currentCycle.epoch c ws p metricSum withBonus = .ok s') :
    s'.meter = s.meter ∨ ∃ v, ScoreBounds v ∧ s'.meter = s.meter.scored c p v := by
  simp only [scorePool, ok_iff, whenSome_eq_ok, Prod.exists] at h
  obtain ⟨bonus, -, ⟨-, rfl⟩ | ⟨committed, -, score, scoreWithBonus, hs, rfl⟩⟩ := h
  · exact .inl rfl
  · exact .inr ⟨(score, scoreWithBonus), scoreOf_bounds hs, rfl⟩

/-- What a distribution to a commitment and its scoring do to the meter. -/
inductive Rescores (mt : Meter A) : Meter A → Prop
  | distributed {budgets : StorageMap PoolId (SlidingBuffer RewardBudget)}
      {payouts : List (Payment (PoolId × ℕ))}
      (shares : ∀ q, SameShares (mt.budgets q) (StorageMap.getD budgets q default)) :
      Rescores mt { mt with stakeBasedRewards := budgets, payouts }
  | scored {mt₁ : Meter A} (before : Rescores mt mt₁) {c : CommitmentId} {p : PoolId} {v : ℕ × ℕ}
      (bounds : ScoreBounds v) : Rescores mt (mt₁.scored c p v)

theorem scorePools_rescores {epoch : ℕ} {sums : List (PoolId × Metric × Metric)}
    (h : Rescores mt s.meter) (hp : s.currentCycle.epoch = epoch) :
    Rescores mt (scorePools epoch c ws s sums).meter := by
  induction sums generalizing s with
  | nil => exact h
  | cons entry rest ih =>
    unfold scorePools
    split
    · next s₁ hs =>
      rw [← hp] at hs
      have hc : s₁.currentCycle.epoch = epoch := by
        obtain ⟨scores, budgets, rfl⟩ := scorePool_rates hs
        exact hp
      rcases scorePool_meter hs with hm | ⟨v, hv, hm⟩
      · exact ih (by rw [hm]; exact h) hc
      · exact ih (by rw [hm]; exact h.scored hv) hc
    · exact h

theorem rewardCommitment_rescores (s : State T) (c : CommitmentId) (pools : List PoolId)
    (sums : List (PoolId × Metric × Metric)) {cm : Commitment}
    (hf : s.commitments.lookup c = some cm)
    (hp : cm.lastScoringEpoch < s.currentCycle.epoch) : ∃ mt, Rescores s.meter mt ∧
      (rewardCommitment s c pools sums).1.meter =
        { mt with lastScored := Function.update s.meter.lastScored c s.currentCycle.epoch } := by
  obtain ⟨cm', es, budgets, payouts, hsc, hb, hq⟩ := rewardCommitment_eq pools sums hf hp
  have hr : Rescores s.meter ({ s with
      stakeBasedRewards := budgets, payouts, history := es ++ s.history } : State T).meter :=
    .distributed (hb ▸ distribute_shares s _ c _ pools)
  have hu : (fun c' => ((s.commitments.insert c cm').lookup c').elim 0 (·.lastScoringEpoch)) =
      Function.update s.meter.lastScored c s.currentCycle.epoch := by
    funext c'
    by_cases hc : c' = c
    · rw [hc, AList.lookup_insert, Function.update_self]
      exact hsc.lastScoringEpoch
    · rw [AList.lookup_insert_ne hc, Function.update_of_ne hc]
      rfl
  refine ⟨(scorePools s.currentCycle.epoch c (rememberedWeights s c) _ sums).meter,
    scorePools_rescores hr rfl, ?_⟩
  rw [hq]
  simp only [State.meter, hu]

def Meter.scoreSum (mt : Meter A) (p : PoolId) (e : ℕ) : ℕ :=
  StorageMap.sum mt.scores fun k b => if k.2 = p then (b.get e).2 else 0

/-- Scores and budgets are in time and bounded, and the total of the epoch covers its scores. At the last
epoch its budgets are set again and again, but they are never paid from. -/
structure Scoring (limit : ℕ) (mt : Meter A) : Prop where
  timely : ∀ k b, mt.scores.lookup k = some b → b.epoch ≤ mt.epoch
  bounds : ∀ k b, mt.scores.lookup k = some b → ∀ x, ScoreBounds (b.get x)
  budgetTimely : ∀ p, (mt.budgets p).epoch ≤ mt.epoch
  limited : ∀ p x, ((mt.budgets p).get x).total ≤ limit
  covered : mt.epoch < maxOf 32 → ∀ p, ((mt.budgets p).get mt.epoch).totalScore = maxOf 256 ∨
    mt.scoreSum p mt.epoch ≤ ((mt.budgets p).get mt.epoch).totalScore

variable {limit : ℕ}

theorem Scoring.score_timely (h : Scoring limit mt) (k : CommitmentId × PoolId) :
    (StorageMap.getD mt.scores k default).epoch ≤ mt.epoch := by
  unfold StorageMap.getD
  cases hk : mt.scores.lookup k with
  | none => exact Nat.zero_le _
  | some b => exact h.timely k b hk

theorem Scoring.score_bounds (h : Scoring limit mt) (k : CommitmentId × PoolId) (x : ℕ) :
    ScoreBounds ((StorageMap.getD mt.scores k default).get x) := by
  unfold StorageMap.getD
  cases hk : mt.scores.lookup k with
  | none =>
    rw [Option.getD_none, SlidingBuffer.get_default]
    exact .default
  | some b => exact h.bounds k b hk x

theorem Scoring.of_same (h : Scoring limit mt) (hs : mt'.scores = mt.scores)
    (hb : mt'.stakeBasedRewards = mt.stakeBasedRewards) (hp : mt'.epoch = mt.epoch) :
    Scoring limit mt' := by
  obtain ⟨ht, ho, hu, hl, hc⟩ := h
  refine ⟨?_, ?_, ?_, ?_, ?_⟩
  · rwa [hs, hp]
  · rwa [hs]
  · unfold Meter.budgets at hu ⊢
    rwa [hb, hp]
  · unfold Meter.budgets at hl ⊢
    rwa [hb]
  · unfold Meter.budgets Meter.scoreSum at hc ⊢
    rwa [hb, hs, hp]

theorem Scoring.distributed (h : Scoring limit mt)
    {budgets : StorageMap PoolId (SlidingBuffer RewardBudget)} {payouts : List (Payment (PoolId × ℕ))}
    (shares : ∀ q, SameShares (mt.budgets q) (StorageMap.getD budgets q default)) :
    Scoring limit { mt with stakeBasedRewards := budgets, payouts } := by
  refine ⟨h.timely, h.bounds, fun p => ?_, fun p x => ?_, fun hl p => ?_⟩
  · exact (shares p).epoch.le.trans (h.budgetTimely p)
  · exact ((shares p).total x).le.trans (h.limited p x)
  · have hs := (shares p).totalScore mt.epoch
    exact (h.covered hl p).imp hs.trans fun hle => hle.trans hs.ge

theorem budgets_scored (mt : Meter A) (c : CommitmentId) (p q : PoolId) (v : ℕ × ℕ) :
    (mt.scored c p v).budgets q = if q = p then (mt.budgets p).mutate mt.epoch (fun bg =>
      { bg with totalScore := saturatingAdd 256 bg.totalScore v.2 }) false else mt.budgets q :=
  getD_insert ..

theorem sum_scored (mt : Meter A) (c : CommitmentId) (p : PoolId) (v : ℕ × ℕ)
    (S : CommitmentId × PoolId → Prop) [DecidablePred S] (e : ℕ) :
    StorageMap.sum (mt.scored c p v).scores (fun k b => if S k then (b.get e).2 else 0) +
        (if S (c, p) then ((StorageMap.getD mt.scores (c, p) default).get e).2 else 0) =
      StorageMap.sum mt.scores (fun k b => if S k then (b.get e).2 else 0) +
        if S (c, p) then (((StorageMap.getD mt.scores (c, p) default).set mt.epoch v).get e).2 else 0 := by
  have hs := StorageMap.sum_insert mt.scores (fun k b => if S k then (b.get e).2 else 0) (c, p)
    ((StorageMap.getD mt.scores (c, p) default).set mt.epoch v)
  have hold : StorageMap.at? (fun k (b : SlidingBuffer (ℕ × ℕ)) => if S k then (b.get e).2 else 0) (c, p)
      (mt.scores.lookup (c, p)) =
        if S (c, p) then ((StorageMap.getD mt.scores (c, p) default).get e).2 else 0 := by
    unfold StorageMap.getD
    cases mt.scores.lookup (c, p) with
    | none =>
      rw [Option.getD_none, SlidingBuffer.get_default, StorageMap.at?_none]
      exact (ite_self _).symm
    | some b => rfl
  rw [hold] at hs
  exact hs

theorem Scoring.scored (h : Scoring limit mt) (c : CommitmentId) (p : PoolId) (hv : ScoreBounds v) :
    Scoring limit (mt.scored c p v) := by
  have hold := h.score_timely (c, p)
  have hl : ∀ {k b}, (mt.scored c p v).scores.lookup k = some b →
      (StorageMap.getD mt.scores (c, p) default).set mt.epoch v = b ∨ mt.scores.lookup k = some b := by
    intro k b hb
    unfold Meter.scored at hb
    rw [lookup_insert_eq] at hb
    split_ifs at hb
    · exact .inl (Option.some.inj hb)
    · exact .inr hb
  refine ⟨fun k b hb => ?_, fun k b hb x => ?_, fun q => ?_, fun q x => ?_, fun ha q => ?_⟩
  · rcases hl hb with rfl | hb
    · exact (SlidingBuffer.epoch_set hold v).le
    · exact h.timely k b hb
  · rcases hl hb with rfl | hb
    · exact SlidingBuffer.forall_get_mutate (f := fun _ => v) hold .default (h.score_bounds (c, p)) hv x
    · exact h.bounds k b hb x
  · rw [budgets_scored]
    split_ifs
    · exact (SlidingBuffer.epoch_mutate (h.budgetTimely p) _ _).le
    · exact h.budgetTimely q
  · rw [budgets_scored]
    split_ifs
    · refine SlidingBuffer.forall_get_mutate (P := fun bg => bg.total ≤ limit) (h.budgetTimely p)
        (Nat.zero_le _) (h.limited p) ?_ x
      exact h.limited p mt.epoch
    · exact h.limited q x
  · have hc := h.covered ha q
    have hs : (mt.scored c p v).scoreSum q mt.epoch ≤
        mt.scoreSum q mt.epoch + if p = q then v.2 else 0 := by
      have heq := sum_scored mt c p v (fun k => k.2 = q) mt.epoch
      rw [SlidingBuffer.get_set hold] at heq
      exact (Nat.le_add_right _ _).trans heq.le
    show (((mt.scored c p v).budgets q).get mt.epoch).totalScore = _ ∨
      (mt.scored c p v).scoreSum q mt.epoch ≤ (((mt.scored c p v).budgets q).get mt.epoch).totalScore
    rw [budgets_scored]
    by_cases hq : q = p
    · subst hq
      rw [if_pos rfl] at hs
      rw [if_pos rfl, SlidingBuffer.get_mutate (h.budgetTimely q)]
      dsimp only [saturatingAdd]
      omega
    · rw [if_neg (Ne.symm hq), Nat.add_zero] at hs
      rw [if_neg hq]
      exact hc.imp_right hs.trans

theorem Rescores.scoring (h : Rescores mt mt') (hm : Scoring limit mt) : Scoring limit mt' := by
  induction h with
  | distributed hs => exact hm.distributed hs
  | scored hbe hb ih => exact ih.scored _ _ hb

theorem Scoring.tick (h : Scoring limit mt) (ht : Ticks mt mt')
    (hli : ∀ p x, ((mt'.budgets p).get x).total ≤ limit) : Scoring limit mt' := by
  have hl : mt.epoch ≤ mt'.epoch := by
    rcases ht.epoch with hp | hp <;> omega
  refine ⟨fun k b hb => ?_, fun k b hb => ?_, fun p => ?_, hli, fun ha p => ?_⟩
  · rw [ht.scores] at hb
    exact (h.timely k b hb).trans hl
  · rw [ht.scores] at hb
    exact h.bounds k b hb
  · rcases ht.budgets p with hs | ⟨-, bg, -, hse⟩
    · rw [hs]
      exact (h.budgetTimely p).trans hl
    · rw [hse]
      exact (SlidingBuffer.epoch_mutate ((h.budgetTimely p).trans hl) _ _).le
  · unfold Meter.scoreSum
    rw [ht.scores]
    rcases ht.epoch with hp | hp
    · rcases ht.budgets p with hs | ⟨hw, -⟩
      · rw [hs, hp]
        exact h.covered (hp ▸ ha) p
      · unfold maxOf at ha
        omega
    · refine .inr (le_trans (StorageMap.sum_eq_zero fun k b hb => ?_).le (Nat.zero_le _))
      have hn : b.get mt'.epoch = default :=
        SlidingBuffer.get_of_epoch_lt (by have hb' := h.timely k b hb; omega)
      rw [hn]
      exact ite_self _

theorem stakedComputeReward_le (s : State T) : (inflate s).2.stakedComputeReward ≤ T.inflationPerEpoch := by
  unfold inflate
  split_ifs
  · exact Nat.zero_le _
  · dsimp only
    split
    · exact PerThing.mulFloor_le _ _
    · exact PerThing.mulFloor_le _ _

theorem onInitialize_limited (hs : Started s) (h : Scoring T.inflationPerEpoch s.meter) (p : PoolId) (x : ℕ) :
    (((onInitialize s).meter.budgets p).get x).total ≤ T.inflationPerEpoch := by
  unfold onInitialize
  rw [rewardCollator_meter]
  split_ifs with ht hp
  · exact h.limited p x
  · have hl : s.currentCycle.epoch ≤
        (advanceEpoch ({ s with blockNumber := s.blockNumber + 1 } : State T)).currentCycle.epoch := by
      have hc := advanceEpoch_epoch (s := { s with blockNumber := s.blockNumber + 1 }) hs.lt
      dsimp only at hc
      omega
    rw [startEpoch_budgets]
    cases s.metricPools.lookup p with
    | none => exact h.limited p x
    | some pool =>
      refine SlidingBuffer.forall_get_mutate (P := fun bg => bg.total ≤ T.inflationPerEpoch)
        ((h.budgetTimely p).trans hl) (Nat.zero_le _) (h.limited p) ?_ x
      exact (PerThing.mulFloor_le _ _).trans (stakedComputeReward_le _)
  · exact h.limited p x

end Acurast.Compute
