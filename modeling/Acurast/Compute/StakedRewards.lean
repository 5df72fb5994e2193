import Acurast.Compute.Ratios
import Acurast.Compute.Scores

/-! The rewards for staked compute, against the budgets of the pools. A commitment is distributed to once
an epoch, and the total score of a pool covers the scores it is distributed for. -/

namespace Acurast.Compute

open Base

variable {A : Type} {T : Config A} {s s' : State T} {mt mt' : Meter A} {c : CommitmentId} {p : PoolId} {e : ℕ}
  {limit : ℕ}

def Meter.undistributed (mt : Meter A) (p : PoolId) (e : ℕ) : ℕ :=
  StorageMap.sum mt.scores fun k b => if k.2 = p ∧ mt.lastScored k.1 < mt.epoch then (b.get e).2 else 0

theorem undistributed_le (mt : Meter A) (p : PoolId) (e : ℕ) : mt.undistributed p e ≤ mt.scoreSum p e := by
  refine StorageMap.sum_le_sum fun k b _ => ?_
  by_cases hk : k.2 = p
  · rw [if_pos hk]
    split_ifs
    · exact le_rfl
    · exact Nat.zero_le _
  · rw [if_neg hk, if_neg fun hb => hk hb.1]

theorem undistributed_update (ha : mt.lastScored c < mt.epoch) (p : PoolId) (e : ℕ) :
    ({ mt with lastScored := Function.update mt.lastScored c mt.epoch } : Meter A).undistributed p e +
      ((StorageMap.getD mt.scores (c, p) default).get e).2 = mt.undistributed p e := by
  have ho : ∀ k, k ≠ (c, p) → (k.2 = p ∧ Function.update mt.lastScored c mt.epoch k.1 < mt.epoch ↔
      k.2 = p ∧ mt.lastScored k.1 < mt.epoch) := by
    intro k hk
    refine and_congr_right fun hp => ?_
    have hc : k.1 ≠ c := fun hc => hk (Prod.ext hc hp)
    rw [Function.update_of_ne hc]
  have hs : StorageMap.sum (mt.scores.erase (c, p)) (fun k b =>
        if k.2 = p ∧ Function.update mt.lastScored c mt.epoch k.1 < mt.epoch then (b.get e).2 else 0) =
      StorageMap.sum (mt.scores.erase (c, p)) (fun k b =>
        if k.2 = p ∧ mt.lastScored k.1 < mt.epoch then (b.get e).2 else 0) := by
    refine StorageMap.sum_congr fun k b hb => ?_
    obtain ⟨hk, hb⟩ := of_lookup_erase hb
    simp only [ho k hk]
  have hn := StorageMap.sum_erase mt.scores (fun k b =>
    if k.2 = p ∧ Function.update mt.lastScored c mt.epoch k.1 < mt.epoch then (b.get e).2 else 0) (c, p)
  have hold := StorageMap.sum_erase mt.scores (fun k b =>
    if k.2 = p ∧ mt.lastScored k.1 < mt.epoch then (b.get e).2 else 0) (c, p)
  have hsc : ¬ (p = p ∧ Function.update mt.lastScored c mt.epoch c < mt.epoch) := by
    rw [Function.update_self]
    exact fun h => lt_irrefl _ h.2
  unfold Meter.undistributed StorageMap.getD
  cases hl : mt.scores.lookup (c, p) with
  | none =>
    rw [hl, StorageMap.at?_none, Nat.add_zero] at hn hold
    rw [Option.getD_none, SlidingBuffer.get_default, ← hold, ← hs]
    exact hn.symm
  | some b =>
    rw [hl, StorageMap.at?_some] at hn hold
    rw [if_neg hsc, Nat.add_zero] at hn
    rw [if_pos ⟨rfl, ha⟩] at hold
    rw [Option.getD_some, ← hold, ← hs]
    exact congrArg (· + (b.get e).2) hn.symm

structure SameLast (mt mt' : Meter A) : Prop where
  epoch : mt'.epoch = mt.epoch
  lastScored : mt'.lastScored = mt.lastScored
  total : ∀ p e, e + 1 = mt.epoch → ((mt'.budgets p).get e).total = ((mt.budgets p).get e).total
  totalScore : ∀ p e, e + 1 = mt.epoch →
    ((mt'.budgets p).get e).totalScore = ((mt.budgets p).get e).totalScore
  scores : ∀ (S : CommitmentId × PoolId → Prop) [DecidablePred S] e, e + 1 = mt.epoch →
    StorageMap.sum mt'.scores (fun k b => if S k then (b.get e).2 else 0) =
      StorageMap.sum mt.scores fun k b => if S k then (b.get e).2 else 0

theorem SameLast.of_same (hp : mt'.epoch = mt.epoch) (hl : mt'.lastScored = mt.lastScored)
    (hc : mt'.scores = mt.scores) (hb : mt'.stakeBasedRewards = mt.stakeBasedRewards) :
    SameLast mt mt' := by
  have hs : ∀ p, mt'.budgets p = mt.budgets p := by
    intro p
    unfold Meter.budgets
    rw [hb]
  refine ⟨hp, hl, fun p e _ => ?_, fun p e _ => ?_, fun S _ e _ => ?_⟩
  · rw [hs]
  · rw [hs]
  · rw [hc]

theorem SameLast.rescored (h : SameLast mt mt') (lastScored : CommitmentId → ℕ) :
    SameLast { mt with lastScored } { mt' with lastScored } :=
  ⟨h.epoch, rfl, h.total, h.totalScore, h.scores⟩

theorem SameLast.undistributed (h : SameLast mt mt') (p : PoolId) (he : e + 1 = mt.epoch) :
    mt'.undistributed p e = mt.undistributed p e := by
  unfold Meter.undistributed
  rw [h.epoch, h.lastScored]
  exact h.scores (fun k => k.2 = p ∧ mt.lastScored k.1 < mt.epoch) e he

theorem Rescores.sameLast (h : Rescores mt mt') (hm : Scoring limit mt) : SameLast mt mt' := by
  induction h with
  | distributed hs =>
    exact ⟨rfl, rfl, fun p e _ => (hs p).total e, fun p e _ => (hs p).totalScore e, fun _ _ _ _ => rfl⟩
  | @scored mt₁ hb c p v ho ih =>
    have hm₁ := hb.scoring hm
    refine ⟨ih.epoch, ih.lastScored, fun q e he => ?_, fun q e he => ?_, fun S _ e he => ?_⟩
    · rw [← ih.total q e he, budgets_scored]
      split_ifs with hq
      · rw [SlidingBuffer.get_mutate_pred (hm₁.budgetTimely p) (he.trans ih.epoch.symm), hq]
      · rfl
    · rw [← ih.totalScore q e he, budgets_scored]
      split_ifs with hq
      · rw [SlidingBuffer.get_mutate_pred (hm₁.budgetTimely p) (he.trans ih.epoch.symm), hq]
      · rfl
    · have hu := sum_scored mt₁ c p v S e
      rw [SlidingBuffer.get_set_pred (hm₁.score_timely (c, p)) (he.trans ih.epoch.symm)] at hu
      exact (Nat.add_right_cancel hu).trans (ih.scores S e he)

theorem scoreReward_ok {bg : RewardBudget} {score r : ℕ} (h : scoreReward bg score = .ok r) :
    bg.totalScore ≠ 0 ∧ r = score * bg.total / bg.totalScore := by
  simp only [scoreReward, ok_iff, checkedMul_eq_some, checkedDiv_eq_some] at h
  obtain ⟨-, ⟨rfl, -⟩, hn, rfl⟩ := h
  exact ⟨hn, rfl⟩

theorem scoreReward_le {bg : RewardBudget} {score r : ℕ} (h : scoreReward bg score = .ok r) :
    r * bg.totalScore ≤ bg.total * score := by
  rw [(scoreReward_ok h).2, Nat.mul_comm bg.total]
  exact Nat.div_mul_le_self _ _

theorem scoreReward_of_saturated {bg : RewardBudget} {score r : ℕ} (h : scoreReward bg score = .ok r)
    (hs : score * 10 ^ 48 < 2 ^ 256) (ht : bg.total < 2 ^ 128) (ha : bg.totalScore = maxOf 256) :
    r = 0 := by
  rw [(scoreReward_ok h).2]
  refine Nat.div_eq_of_lt ?_
  rw [ha]
  rcases Nat.eq_zero_or_pos score with rfl | hp
  · rw [Nat.zero_mul]
    decide
  · have hl : score * bg.total < score * 10 ^ 48 :=
      Nat.mul_lt_mul_of_pos_left (ht.trans (by decide)) hp
    exact lt_of_lt_of_le hl (Nat.le_sub_one_of_lt hs)

variable {v : ℕ × ℕ} {pools : List PoolId} {bg : RewardBudget} {r bonus : ℕ}

theorem poolRewards_ok (h : poolRewards bg v.1 v.2 = .ok (r, bonus)) :
    scoreReward bg v.1 = .ok r ∧
      ∃ x, scoreReward bg (v.2 - v.1) = .ok x ∧ bonus = saturatedInto 128 x := by
  simp only [poolRewards, ok_iff, Prod.mk.injEq] at h
  obtain ⟨_, hr, x, hx, rfl, rfl⟩ := h
  exact ⟨hr, x, hx, rfl⟩

theorem poolRewards_le (h : poolRewards bg v.1 v.2 = .ok (r, bonus)) (hv : v.1 ≤ v.2) :
    (r + bonus) * bg.totalScore ≤ bg.total * v.2 := by
  obtain ⟨hr, x, hx, rfl⟩ := poolRewards_ok h
  have hb : saturatedInto 128 x * bg.totalScore ≤ bg.total * (v.2 - v.1) :=
    (Nat.mul_le_mul_right _ saturatedInto_le).trans (scoreReward_le hx)
  calc (r + saturatedInto 128 x) * bg.totalScore
      ≤ bg.total * v.1 + bg.total * (v.2 - v.1) := by
        rw [Nat.add_mul]
        exact Nat.add_le_add (scoreReward_le hr) hb
    _ = bg.total * v.2 := by rw [← Nat.mul_add, Nat.add_sub_cancel' hv]

theorem poolRewards_of_saturated (h : poolRewards bg v.1 v.2 = .ok (r, bonus)) (hv : ScoreBounds v)
    (ht : bg.total < 2 ^ 128) (hs : bg.totalScore = maxOf 256) : r + bonus = 0 := by
  obtain ⟨hr, x, hx, rfl⟩ := poolRewards_ok h
  rw [scoreReward_of_saturated hr hv.score ht hs, scoreReward_of_saturated hx hv.bonus ht hs]
  rfl

def payoutAt (mt : Meter A) (e : ℕ) (c : CommitmentId) (p : PoolId) : Payment (PoolId × ℕ) :=
  let budget := (mt.budgets p).get e
  let (score, scoreWithBonus) := (StorageMap.getD mt.scores (c, p) default).get e
  ⟨(p, e), (poolRewards budget score scoreWithBonus).toOption.elim 0 fun r => r.1 + r.2, budget.total⟩

theorem poolRewards_congr {bg' : RewardBudget} (ht : bg'.total = bg.total)
    (hs : bg'.totalScore = bg.totalScore) (x y : ℕ) : poolRewards bg' x y = poolRewards bg x y := by
  simp only [poolRewards, scoreReward, ht, hs]

theorem distributePool_payouts (rate : Perbill) (weights : CommitmentWeights) {d : Distribution}
    (h : SameShares (s.meter.budgets p) (StorageMap.getD d.stakeBasedRewards p default)) :
    ∃ new : List (Payment (PoolId × ℕ)), (distributePool e rate weights
        ((StorageMap.getD s.scores (c, p) default).get e).1
        ((StorageMap.getD s.scores (c, p) default).get e).2 p d).1.payouts = new ++ d.payouts ∧
      new.Sublist [payoutAt s.meter e c p] := by
  have hc := poolRewards_congr (h.total e) (h.totalScore e)
    ((StorageMap.getD s.scores (c, p) default).get e).1
    ((StorageMap.getD s.scores (c, p) default).get e).2
  have ht := h.total e
  unfold distributePool
  dsimp only
  split_ifs
  · exact ⟨[], rfl, List.nil_sublist _⟩
  · split
    · exact ⟨[], rfl, List.nil_sublist _⟩
    · next r bonus hr =>
      have hp : (⟨(p, e), r + bonus, ((StorageMap.getD d.stakeBasedRewards p default).get e).total⟩ :
          Payment (PoolId × ℕ)) = payoutAt s.meter e c p := by
        rw [hc] at hr
        rw [ht]
        unfold payoutAt
        dsimp only
        rw [show (poolRewards ((s.meter.budgets p).get e)
          ((StorageMap.getD s.meter.scores (c, p) default).get e).1
          ((StorageMap.getD s.meter.scores (c, p) default).get e).2) = _ from hr]
        rfl
      rw [hp]
      refine ⟨[payoutAt s.meter e c p], ?_, List.Sublist.refl _⟩
      split
      · rfl
      · split
        · rfl
        · rfl

theorem distributePools_payouts {rate : Perbill} {weights : CommitmentWeights} {d : Distribution}
    (h : ∀ q, SameShares (s.meter.budgets q) (StorageMap.getD d.stakeBasedRewards q default)) :
    ∃ new, (distributePools s e c rate weights pools d).1.payouts = new ++ d.payouts ∧
      new.Sublist (pools.reverse.map (payoutAt s.meter e c)) := by
  induction pools generalizing d with
  | nil => exact ⟨[], rfl, List.Sublist.refl _⟩
  | cons p rest ih =>
    obtain ⟨first, hf, hl⟩ := distributePool_payouts (c := c) (e := e) rate weights (h p)
    have hs := fun q => distributePool_shares e rate weights
      ((StorageMap.getD s.scores (c, p) default).get e).1
      ((StorageMap.getD s.scores (c, p) default).get e).2 p q d
    unfold distributePools
    dsimp only
    rw [List.reverse_cons, List.map_append]
    split
    · next d₁ hp =>
      rw [hp] at hf hs
      obtain ⟨new, hn, hu⟩ := ih fun q => (h q).trans (hs q)
      exact ⟨new ++ first, by rw [hn, hf, List.append_assoc], hu.append hl⟩
    · next d₁ hp =>
      rw [hp] at hf
      exact ⟨first, hf, hl.trans (List.sublist_append_right _ _)⟩

theorem scorePools_payouts (epoch : ℕ) (weights : CommitmentWeights) (s : State T)
    (sums : List (PoolId × Metric × Metric)) :
    (scorePools epoch c weights s sums).payouts = s.payouts := by
  obtain ⟨scores, budgets, hs⟩ := scorePools_rates epoch c weights s sums
  rw [hs]

theorem rewardCommitment_payouts (s : State T) (c : CommitmentId) (pools : List PoolId)
    (sums : List (PoolId × Metric × Metric)) {cm : Commitment}
    (hf : s.commitments.lookup c = some cm) (hp : cm.lastScoringEpoch < s.currentCycle.epoch) :
    ∃ new, (rewardCommitment s c pools sums).1.payouts = new ++ s.payouts ∧
      new.Sublist (pools.reverse.map (payoutAt s.meter (s.currentCycle.epoch - 1) c)) := by
  unfold rewardCommitment
  simp only [hf]
  rw [if_neg (Nat.not_le.mpr hp)]
  dsimp only [score]
  rw [scorePools_payouts]
  unfold distribute
  cases cm.stake with
  | none => exact ⟨[], rfl, List.nil_sublist _⟩
  | some st =>
    rw [(applyDistribution_budgets ..).2]
    exact distributePools_payouts fun q => .refl _

/-- The payouts so far are within the budgets, and so are those of the commitments that are left in this
epoch. -/
structure Owed (payouts : List (Payment (PoolId × ℕ))) (mt : Meter A) : Prop where
  past : ∀ payout ∈ payouts, payout.key.2 < mt.epoch
  within : WithinBudget payouts (fun k => k.2 + 1 = mt.epoch) fun k => ((mt.budgets k.1).get k.2).total
  left : ∀ p e, e + 1 = mt.epoch → paidFor payouts (p, e) ≤ ((mt.budgets p).get e).total ∧
    (((mt.budgets p).get e).totalScore = maxOf 256 ∨
      paidFor payouts (p, e) * ((mt.budgets p).get e).totalScore +
          ((mt.budgets p).get e).total * mt.undistributed p e ≤
        ((mt.budgets p).get e).total * ((mt.budgets p).get e).totalScore)

variable {payouts new : List (Payment (PoolId × ℕ))}

theorem Owed.keep (h : Owed payouts mt) (hs : SameLast mt mt') : Owed payouts mt' := by
  refine ⟨?_, h.within.reopen fun payout _ he => ?_, fun p e he => ?_⟩
  · rw [hs.epoch]
    exact h.past
  · rw [hs.epoch] at he
    exact ⟨he, hs.total _ _ he⟩
  · rw [hs.epoch] at he
    rw [hs.total p e he, hs.totalScore p e he, hs.undistributed p he]
    exact h.left p e he

theorem Owed.left_pay (h : Owed payouts mt) (hm : Scoring limit mt) (hli : limit < 2 ^ 128)
    (hla : mt.lastScored c < mt.epoch) (he : e + 1 = mt.epoch) {n : ℕ}
    (hn : n ≤ (payoutAt mt e c p).amount) :
    n + paidFor payouts (p, e) ≤ ((mt.budgets p).get e).total ∧
      (((mt.budgets p).get e).totalScore = maxOf 256 ∨
        (n + paidFor payouts (p, e)) * ((mt.budgets p).get e).totalScore +
            ((mt.budgets p).get e).total * ({ mt with
              lastScored := Function.update mt.lastScored c mt.epoch } : Meter A).undistributed p e ≤
          ((mt.budgets p).get e).total * ((mt.budgets p).get e).totalScore) := by
  have hv := hm.score_bounds (c, p) e
  have hu := undistributed_update hla p e
  obtain ⟨hp, hl⟩ := h.left p e he
  have ht : ((mt.budgets p).get e).total < 2 ^ 128 := (hm.limited p e).trans_lt hli
  have hr : n = 0 ∨ ∃ r bonus, poolRewards ((mt.budgets p).get e)
      ((StorageMap.getD mt.scores (c, p) default).get e).1
      ((StorageMap.getD mt.scores (c, p) default).get e).2 = .ok (r, bonus) ∧ n ≤ r + bonus := by
    unfold payoutAt at hn
    dsimp only at hn
    cases hpr : poolRewards ((mt.budgets p).get e)
        ((StorageMap.getD mt.scores (c, p) default).get e).1
        ((StorageMap.getD mt.scores (c, p) default).get e).2 with
    | error err =>
      rw [hpr] at hn
      exact .inl (Nat.le_zero.mp hn)
    | ok rewards =>
      rw [hpr] at hn
      exact .inr ⟨rewards.1, rewards.2, rfl, hn⟩
  generalize (StorageMap.getD mt.scores (c, p) default).get e = v at hv hu hr
  generalize (mt.budgets p).get e = bg at hp hl ht hr ⊢
  by_cases hs : bg.totalScore = maxOf 256
  · have hz : n = 0 := by
      rcases hr with hz | ⟨r, bonus, hr, hle⟩
      · exact hz
      · exact Nat.le_zero.mp (poolRewards_of_saturated hr hv ht hs ▸ hle)
    rw [hz, Nat.zero_add]
    exact ⟨hp, .inl hs⟩
  · have hb := hl.resolve_left hs
    have hh : n * bg.totalScore ≤ bg.total * v.2 := by
      rcases hr with rfl | ⟨r, bonus, hr, hle⟩
      · rw [Nat.zero_mul]
        exact Nat.zero_le _
      · exact (Nat.mul_le_mul_right _ hle).trans (poolRewards_le hr hv.le)
    have ha : (n + paidFor payouts (p, e)) * bg.totalScore + bg.total * ({ mt with
        lastScored := Function.update mt.lastScored c mt.epoch } : Meter A).undistributed p e ≤
          bg.total * bg.totalScore := by
      rw [← hu, Nat.mul_add] at hb
      rw [Nat.add_mul]
      omega
    refine ⟨?_, .inr ha⟩
    rcases Nat.eq_zero_or_pos bg.totalScore with hz | ho
    · have hn : n = 0 := by
        rcases hr with hn | ⟨r, bonus, hr, -⟩
        · exact hn
        · exact absurd hz (scoreReward_ok (poolRewards_ok hr).1).1
      rw [hn, Nat.zero_add]
      exact hp
    · exact Nat.le_of_mul_le_mul_right ((Nat.le_add_right _ _).trans ha) ho

theorem Owed.pay (h : Owed payouts mt) (ht : Scoring limit mt) (hli : limit < 2 ^ 128)
    (hla : mt.lastScored c < mt.epoch) (he : e + 1 = mt.epoch) (ho : pools.Nodup)
    (hn : new.Sublist (pools.map (payoutAt mt e c))) :
    Owed (new ++ payouts) { mt with lastScored := Function.update mt.lastScored c mt.epoch } := by
  have hke : (pools.map fun q => (payoutAt mt e c q).key).Nodup :=
    ho.map fun q q' hq => (Prod.mk.inj hq).1
  have hm : ∀ payout ∈ new, ∃ q, payout = payoutAt mt e c q := by
    intro payout hp
    obtain ⟨q, -, rfl⟩ := List.mem_map.mp (hn.subset hp)
    exact ⟨q, rfl⟩
  have ha : ∀ q, paidFor new (q, e) ≤ (payoutAt mt e c q).amount := by
    intro q
    refine paidFor_le hke hn fun q' _ hq => ?_
    rw [show q' = q from (Prod.mk.inj hq).1]
  have hl := fun q => h.left_pay ht hli hla he (ha q)
  refine ⟨fun payout hp => ?_, h.within.append (fun payout hp => ?_) fun k hk => ?_, fun q e' he' => ?_⟩
  · rcases List.mem_append.mp hp with hp | hp
    · obtain ⟨q, rfl⟩ := hm payout hp
      show e < mt.epoch
      omega
    · exact h.past payout hp
  · obtain ⟨q, rfl⟩ := hm payout hp
    exact ⟨he, rfl⟩
  · obtain ⟨q, e'⟩ := k
    obtain rfl : e' = e := by
      omega
    rw [paidFor_append]
    exact (hl q).1
  · obtain rfl : e' = e := Nat.add_right_cancel (he'.trans he.symm)
    rw [paidFor_append]
    exact hl q

theorem Owed.tick (h : Owed payouts mt) (hm : Scoring limit mt) (ht : Ticks mt mt')
    (hlt : mt'.epoch < 2 ^ 32) : Owed payouts mt' := by
  have hl : mt.epoch ≤ mt'.epoch := by
    rcases ht.epoch with hp | hp <;> omega
  have hb : ∀ p e, e + 1 = mt'.epoch → (mt'.budgets p).get e = (mt.budgets p).get e := by
    intro p e he
    rcases ht.budgets p with hsa | ⟨-, bg, -, hs⟩
    · rw [hsa]
    · rw [hs]
      exact SlidingBuffer.get_mutate_pred ((hm.budgetTimely p).trans hl) he _ _
  rcases ht.epoch with hp | hp
  · refine h.keep ⟨hp, ht.lastScored, fun p e he => ?_, fun p e he => ?_, fun S _ e _ => ?_⟩
    · rw [hb p e (he.trans hp.symm)]
    · rw [hb p e (he.trans hp.symm)]
    · rw [ht.scores]
  · refine ⟨fun payout ha => ?_, h.within.reopen fun payout ha he => ?_, fun p e he => ?_⟩
    · exact (h.past payout ha).trans_le hl
    · have hpas := h.past payout ha
      omega
    · obtain rfl : e = mt.epoch := by omega
      have hn : paidFor payouts (p, mt.epoch) = 0 := by
        refine paidFor_eq_zero fun payout ha hk => ?_
        exact (h.past payout ha).ne (congrArg Prod.snd hk)
      rw [hb p _ he, hn, Nat.zero_mul, Nat.zero_add]
      refine ⟨Nat.zero_le _, (hm.covered ?_ p).imp_right fun hc => ?_⟩
      · unfold maxOf
        omega
      · refine Nat.mul_le_mul_left _ ((undistributed_le mt' p mt.epoch).trans ?_)
        unfold Meter.scoreSum at hc ⊢
        rwa [ht.scores]

theorem rewardCommitment_owed (h : Owed s.payouts s.meter) (hs : Scoring limit s.meter)
    (hl : limit < 2 ^ 128) (ho : 0 < s.currentCycle.epoch) (c : CommitmentId)
    (hpo : pools.Nodup) (sums : List (PoolId × Metric × Metric)) :
    Owed (rewardCommitment s c pools sums).1.payouts (rewardCommitment s c pools sums).1.meter ∧
      Scoring limit (rewardCommitment s c pools sums).1.meter := by
  cases hf : s.commitments.lookup c with
  | none =>
    unfold rewardCommitment
    simp only [hf]
    exact ⟨h, hs⟩
  | some cm =>
    by_cases hp : s.currentCycle.epoch ≤ cm.lastScoringEpoch
    · unfold rewardCommitment
      simp only [hf, if_pos hp]
      exact ⟨h, hs⟩
    · obtain ⟨mt, hr, hm⟩ := rewardCommitment_rescores s c pools sums hf (Nat.lt_of_not_le hp)
      have ha : s.meter.lastScored c < s.meter.epoch := by
        have hq : s.meter.lastScored c = cm.lastScoringEpoch := by simp [State.meter, hf]
        rw [hq]
        exact Nat.lt_of_not_le hp
      obtain ⟨new, hq, hn⟩ := rewardCommitment_payouts s c pools sums hf (Nat.lt_of_not_le hp)
      have he : s.currentCycle.epoch - 1 + 1 = s.meter.epoch := Nat.sub_add_cancel ho
      have hpa := h.pay hs hl ha he (List.nodup_reverse.mpr hpo) hn
      rw [hq, hm]
      exact ⟨hpa.keep ((hr.sameLast hs).rescored _), (hr.scoring hs).of_same rfl rfl rfl⟩

def State.budgetTotal (s : State T) : ℕ :=
  StorageMap.sum s.metricPools fun p _ => ((s.meter.budgets p).get s.currentCycle.epoch).total

theorem startEpoch_budgetTotal (hl : s.currentCycle.epoch < 2 ^ 32)
    (hb : ∀ p, (s.meter.budgets p).epoch ≤ s.meter.epoch)
    (hr : s.meter.Apportioned) :
    (startEpoch s).budgetTotal ≤ (inflate (advanceEpoch s)).2.stakedComputeReward := by
  have ho : (startEpoch s).metricPools = s.metricPools := (startEpoch_ticks hl).metricPools
  have hep : (startEpoch s).currentCycle.epoch = (advanceEpoch s).currentCycle.epoch := startEpoch_epoch s
  have hle : s.currentCycle.epoch ≤ (advanceEpoch s).currentCycle.epoch := by
    have hc := advanceEpoch_epoch hl
    omega
  have hs : ∀ p pool, s.metricPools.lookup p = some pool →
      (((startEpoch s).meter.budgets p).get (advanceEpoch s).currentCycle.epoch).total =
        (pool.reward.get s.currentCycle.epoch).mulFloor (inflate (advanceEpoch s)).2.stakedComputeReward := by
    intro p pool hp
    rw [startEpoch_budgets, hp]
    rw [SlidingBuffer.get_mutate ((hb p).trans hle)]
    rfl
  unfold State.budgetTotal
  rw [ho, hep, StorageMap.sum_congr hs]
  exact PerThing.sum_mulFloor_le (by decide) (fun entry : Sigma fun _ : PoolId => MetricPool =>
    entry.2.reward.get s.currentCycle.epoch) _ s.metricPools.entries (hr s.meter.epoch le_rfl)

theorem genesis_owed (w : T.World) : Owed [] (State.genesis T w).meter ∧
    Scoring T.inflationPerEpoch (State.genesis T w).meter := by
  have hu : ∀ p, (State.genesis T w).meter.budgets p = default := fun _ => rfl
  refine ⟨⟨?_, .nil, ?_⟩, ⟨?_, ?_, fun p => ?_, fun p x => ?_, fun _ p => .inr (Nat.zero_le _)⟩⟩
  · intro payout hp
    cases hp
  · intro p e he
    cases he
  · intro k b hb
    simp [State.genesis, State.meter] at hb
  · intro k b hb
    simp [State.genesis, State.meter] at hb
  · rw [hu]
    exact le_rfl
  · rw [hu, SlidingBuffer.get_default]
    exact Nat.zero_le _

variable [DecidableEq A]

theorem commit_owed (h : Owed s.payouts s.meter) (hs : Scoring limit s.meter) (hl : limit < 2 ^ 128)
    (proc manager : A) (m : ManagerId) (metrics : List MetricInput) :
    Owed (commit s proc manager m metrics).1.payouts (commit s proc manager m metrics).1.meter ∧
      Scoring limit (commit s proc manager m metrics).1.meter := by
  have hpo : ((List.range s.lastMetricPoolId).map (· + 1)).Nodup :=
    List.nodup_range.map fun a b ha => Nat.succ.inj ha
  have hp : (rewardCall s proc m metrics).isSome → 0 < s.currentCycle.epoch := epoch_pos_of_rewardCall
  have hpa : (commit s proc manager m metrics).1.payouts =
      (doCommit s proc m metrics ((List.range s.lastMetricPoolId).map (· + 1))).1.payouts :=
    congrArg Meter.payouts (commit_meter s proc manager m metrics)
  rw [commit_meter, hpa]
  obtain ⟨active, processors, hca⟩ := doCommit_eq s proc m metrics
    ((List.range s.lastMetricPoolId).map (· + 1))
  obtain ⟨ms, ps, epochSums, hm⟩ := (commitMetrics_counted s proc m active metrics).writes
  have hc : ∀ s₁ : State T, s₁ = { (commitMetrics s proc m active metrics).1 with processors } →
      (Owed s₁.payouts s₁.meter ∧ Scoring limit s₁.meter) ∧ s₁.currentCycle = s.currentCycle := by
    rintro _ rfl
    rw [hm]
    exact ⟨⟨h.keep (.of_same rfl rfl rfl rfl), hs.of_same rfl rfl rfl⟩, rfl⟩
  rcases hca with ⟨-, hq⟩ | ⟨s₁, sums, ho, hs₁, -, hq⟩
  · rw [hq]
    exact (hc _ rfl).1
  · rw [hq]
    rw [ho] at hp
    obtain ⟨hc, hy⟩ := hc s₁ hs₁
    unfold reward
    cases s₁.backingLookup.lookup m with
    | none => exact hc
    | some c =>
      refine rewardCommitment_owed hc.1 hc.2 hl ?_ c hpo sums
      rw [hy]
      exact hp rfl

theorem step_owed (hl : T.inflationPerEpoch < 2 ^ 128) (op : Op T) (hs : Timed s)
    (hc : Scoring T.inflationPerEpoch s.meter) (h : Owed s.payouts s.meter) :
    Owed (step s op).payouts (step s op).meter ∧ Scoring T.inflationPerEpoch (step s op).meter := by
  cases op with
  | heartbeat proc manager m ms => exact commit_owed h hc hl proc manager m ms
  | block =>
    have ht := onInitialize_ticks hs.started
    have hp : (step s .block).payouts = s.payouts := ht.payouts
    rw [hp]
    exact ⟨h.tick hc ht (step_timed s .block hs).started.lt,
      hc.tick ht (onInitialize_limited hs.started hc)⟩
  | outside w => exact ⟨h, hc⟩
  | dispatch o call =>
    have hst := step_metered s (.dispatch o call)
    generalize step s (.dispatch o call) = s' at hst ⊢
    show Owed s'.meter.payouts s'.meter ∧ _
    cases hst with
    | kept hm =>
      rw [hm]
      exact ⟨h, hc⟩
    | create call =>
      rw [doCreatePool_meter call]
      exact ⟨h.keep (.of_same rfl rfl rfl rfl), hc.of_same rfl rfl rfl⟩
    | modify call =>
      obtain ⟨pool, pool', -, -, -, -, hme, -⟩ := modifyPool_meter call
      rw [hme]
      exact ⟨h.keep (.of_same rfl rfl rfl rfl), hc.of_same rfl rfl rfl⟩

/-- In every run what the distributions compute for a pool and an epoch stays within the total of
the budget, and the totals that the next epoch starts with within the reward for staked compute. -/
theorem staked_rewards_within_budget (hbalance : T.inflationPerEpoch < 2 ^ 128) (w : T.World)
    (ops : List (Op T)) :
    (∀ payout ∈ (reached w ops).payouts,
      paidFor (reached w ops).payouts payout.key ≤ payout.budget) ∧
    ∀ blockNumber, (startEpoch { reached w ops with blockNumber }).budgetTotal ≤
        (inflate (advanceEpoch { reached w ops with blockNumber })).2.stakedComputeReward := by
  have hk : ∀ (s : State T) op, Timed s ∧ s.meter.Apportioned ∧
      Owed s.payouts s.meter ∧ Scoring T.inflationPerEpoch s.meter →
      Timed (step s op) ∧ (step s op).meter.Apportioned ∧
        Owed (step s op).payouts (step s op).meter ∧ Scoring T.inflationPerEpoch (step s op).meter := by
    intro s op ⟨ht, hr, ho, hs⟩
    exact ⟨step_timed s op ht, step_apportioned ht.started hr, step_owed hbalance op ht hs ho⟩
  obtain ⟨ht, hr, ho, hs⟩ := run_invariant' hk ops
    ⟨genesis_timed w, genesis_apportioned w, genesis_owed w⟩
  exact ⟨ho.within.settled, fun blockNumber =>
    startEpoch_budgetTotal ht.started.lt hs.budgetTimely hr⟩

theorem staked_rewards_within_budget_rewarded : mock.inflationPerEpoch < 2 ^ 128 ∧
      paidFor (after rewarded).payouts (1, 4) = 5993150684931506 ∧
      (∀ payout ∈ (after rewarded).payouts,
        paidFor (after rewarded).payouts payout.key ≤ payout.budget) ∧
      (startEpoch { after rewarded with blockNumber := 8 }).budgetTotal ≤
        (inflate (advanceEpoch { after rewarded with
          blockNumber := 8 })).2.stakedComputeReward := by
  have hb : mock.inflationPerEpoch < 2 ^ 128 := by decide
  have hw := staked_rewards_within_budget (T := mock) hb [] rewarded
  exact ⟨hb, by decide +kernel, hw.1, hw.2 8⟩

end Acurast.Compute
