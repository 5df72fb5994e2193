import Acurast.Base.Shares
import Acurast.Compute.Mock

/-! What a slash call takes from the committer's account, and how far the stake covers it. -/

namespace Acurast.Compute

open Base

variable {A : Type} {T : Config A} {s s' : State T} {who slasher committer : A} {c : CommitmentId}

def takenFrom (c : CommitmentId) : Entry A → ℕ
  | .slashed c' _ amount => if c' = c then amount else 0
  | _ => 0

/-- Withdrawing and slashing take no more than they were asked for. -/
structure TakesAtMost (T : Config A) : Prop where
  withdraw : ∀ w who amount w' taken, T.withdraw w who amount = some (w', taken) → taken ≤ amount
  slash : ∀ w who amount w' taken, T.slash w who amount = some (w', taken) → taken ≤ amount

theorem slashFor_credit {toSlash credit : ℕ} (hT : TakesAtMost T)
    (h : slashFor s who toSlash = .ok (s', credit)) : credit = toSlash := by
  refine le_antisymm ?_ (slashFor_ok h).2
  unfold slashFor at h
  split_ifs at h
  · simp only [pure_eq_ok, Prod.mk.injEq] at h
    omega
  · simp only [ok_iff, Prod.exists] at h
    obtain ⟨w, taken, hw, h⟩ := h
    have ht := hT.withdraw _ _ _ _ _ hw
    split_ifs at h
    · simp only [pure_eq_ok, Prod.mk.injEq] at h
      omega
    · simp only [ok_iff, Prod.exists, Prod.mk.injEq] at h
      obtain ⟨w', external, hs, -, -, -, rfl⟩ := h
      have hx := hT.slash _ _ _ _ _ hs
      omega

def poolRatio (s : State T) (p : PoolId) : Perquintill :=
  (s.metricPools.lookup p).elim PerThing.zero (·.reward.get (s.currentCycle.epoch - 1))

/-- Since the last slash no pool of the commitment was without metrics for more than `n` epochs, the
ratios of these pools are parts of one, and the committer's part of `n` full slashes is within the
stake. -/
structure StakeCovers (s : State T) (c : CommitmentId) (n : ℕ) : Prop where
  pos : 0 < n
  silent : ∀ cm ∈ s.commitments.lookup c, ∀ m ∈ s.backings.lookup c,
    ∀ p ∈ iterPrefix s.computeCommitments c,
      s.currentCycle.epoch ≤ max cm.lastSlashingEpoch (sumAt s m p.1).epoch + n + 1
  ratios : ((iterPrefix s.computeCommitments c).map fun p => (poolRatio s p.1).parts).sum ≤ 10 ^ 18
  stake : ∀ cm ∈ s.commitments.lookup c, ∀ st ∈ cm.stake,
    n * T.baseSlashRation.mulFloor (st.amount + cm.delegationsTotalAmount) *
        (rememberedWeights s c).selfSlashWeight ≤
      st.amount * (rememberedWeights s c).totalSlashWeight

variable {n : ℕ}

theorem chargeOf_le {m x : ℕ} {pool : MetricPool} {p : PoolId} {cm : Commitment} (metric : Metric)
    (hn : 0 < n) (he : s.currentCycle.epoch ≤ max cm.lastSlashingEpoch (sumAt s m p).epoch + n + 1) :
    (chargeOf s (s.currentCycle.epoch - 1) cm.lastSlashingEpoch m x pool p metric).2 ≤
      n * (pool.reward.get (s.currentCycle.epoch - 1)).mulFloor (T.baseSlashRation.mulFloor x) := by
  have hm : missedEpochsOf (s.currentCycle.epoch - 1) cm.lastSlashingEpoch (sumAt s m p) ≤ n := by
    unfold missedEpochsOf
    split_ifs <;> omega
  show poolSlashAmount .. ≤ _
  unfold poolSlashAmount
  split
  · refine saturatingMul_le.trans ?_
    rw [Nat.mul_comm]
    exact Nat.mul_le_mul hm (PerThing.mulFloor_le _ _)
  · exact Nat.zero_le _

theorem owedSlash_le (h : StakeCovers s c n) {cm : Commitment} {st : Stake}
    (hc : s.commitments.lookup c = some cm) (ht : cm.stake = some st) :
    owedSlash s c ≤ n * T.baseSlashRation.mulFloor (st.amount + cm.delegationsTotalAmount) := by
  unfold owedSlash
  cases hm : s.backings.lookup c with
  | none =>
    rw [hc]
    exact Nat.zero_le _
  | some m =>
    rw [hc]
    dsimp only
    rw [ht, Option.elim_some]
    have hs : ∀ p ∈ iterPrefix s.computeCommitments c,
        ((s.metricPools.lookup p.1).elim 0 fun pool => (chargeOf s (s.currentCycle.epoch - 1)
          cm.lastSlashingEpoch m (st.amount + cm.delegationsTotalAmount) pool p.1 p.2).2) ≤
          n * (poolRatio s p.1).mulFloor
            (T.baseSlashRation.mulFloor (st.amount + cm.delegationsTotalAmount)) := by
      intro p hp
      unfold poolRatio
      cases s.metricPools.lookup p.1 with
      | none => exact Nat.zero_le _
      | some pool => exact chargeOf_le p.2 h.pos (h.silent cm hc m hm p hp)
    refine (List.sum_le_sum hs).trans ?_
    rw [List.sum_map_mul_left]
    exact Nat.mul_le_mul_left _ (PerThing.sum_mulFloor_le (by decide) _ _ _ h.ratios)

theorem StakeCovers.committerShare_le (h : StakeCovers s c n) {cm : Commitment} {st : Stake}
    (hc : s.commitments.lookup c = some cm) (ht : cm.stake = some st) :
    committerShare s c ≤ st.amount := by
  unfold committerShare
  rcases Nat.eq_zero_or_pos (rememberedWeights s c).totalSlashWeight with hz | hp
  · rw [hz, Nat.div_zero]
    exact Nat.zero_le _
  · refine Nat.div_le_of_le_mul ?_
    calc (rememberedWeights s c).selfSlashWeight * owedSlash s c
        ≤ (rememberedWeights s c).selfSlashWeight *
            (n * T.baseSlashRation.mulFloor (st.amount + cm.delegationsTotalAmount)) :=
          Nat.mul_le_mul_left _ (owedSlash_le h hc ht)
      _ ≤ st.amount * (rememberedWeights s c).totalSlashWeight := by
          rw [Nat.mul_comm]
          exact h.stake cm hc st ht
      _ = _ := Nat.mul_comm _ _

variable [DecidableEq A]

theorem doSlash_taken (hT : TakesAtMost T) (h : doSlash s c slasher = .ok s') :
    tally (takenFrom c) s' = tally (takenFrom c) s + committerShare s c ∧
      stakeAmount s' c = stakeAmount s c - committerShare s c := by
  obtain ⟨plan, cm, m, hp, ⟨hz, ha⟩ | ⟨shares, committer, credit, s₁, cm₁, cm', hs⟩⟩ :=
    doSlash_cases (fun _ => True) h (.inr trivial)
  · have hh : committerShare s c = 0 := by
      rw [committerShare, ← hp.weights, hz, Nat.div_zero]
    rw [hh, ha]
    exact ⟨rfl, rfl⟩
  · have hse := hp.selfSlashAmount_eq hs.split
    obtain ⟨s₀, s₂, hta⟩ := hs.withdrawn
    obtain ⟨st, ht⟩ := Option.isSome_iff_exists.mp hp.staked
    obtain ⟨cm₂, stake₂, hc₂, hs₂, hm, -, -⟩ := hs.taken.stake cm st hp.found ht
    rw [hs.found, Option.some.injEq] at hc₂
    subst hc₂
    refine ⟨?_, ?_⟩
    · rw [tally, hs.result, hs.history, List.map_append, List.sum_append,
        tally_charges (fun _ _ _ _ => rfl), List.map_cons, List.sum_cons, takenFrom, if_pos rfl,
        slashFor_credit hT hta, hse, Nat.zero_add, Nat.add_comm, tally]
    · rw [stakeAmount, hs.result, AList.lookup_insert, Option.bind_some, hs.marks.stake,
        hs₂, Option.elim_some, hm, hse, stakeAmount, hp.found, Option.bind_some, ht,
        Option.elim_some]

theorem mock_takesAtMost : TakesAtMost mock where
  withdraw := fun _ _ _ _ _ h => ((Prod.mk.inj (Option.some.inj h)).2).ge
  slash := fun _ _ _ _ _ h => by cases h

theorem missed_stakeCovers : StakeCovers (missed 5) 0 10 := by
  refine ⟨by decide, ?_, by decide +kernel, ?_⟩
  · decide +kernel
  · decide +kernel

end Acurast.Compute
