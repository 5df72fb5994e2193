import Acurast.Compute.Mock
import Acurast.Compute.Sides

/-! A generation of a commitment's delegators never accrues more than it was credited, as long as a
distribution spreads over no less weight than reads the index. -/

namespace Acurast.Compute

open Base

section Credit

variable {A : Type} [DecidableEq A] {T : Config A} {s s' : State T} {c : CommitmentId}

def creditedTo (c : CommitmentId) (t : ℕ) : Entry A → ℕ
  | .credited c' t' amount => if c' = c ∧ t' = t then amount else 0
  | _ => 0

def liveRewardWeight (s : State T) (c : CommitmentId) (created : ℕ) : ℕ :=
  StorageMap.sum s.delegations fun k d =>
    if k.2 = c ∧ created ≤ d.stake.created then d.rewardWeight else 0

structure Covered (s : State T) : Prop where
  current : PoolsCurrent s
  covered : ∀ c t, rewardSide.potential t s c ≤ perTokenDecimals * tally (creditedTo c t) s

theorem Move.covered (h : Move (· ≠ .credit) s s') (hs : Covered s) : Covered s' where
  current := h.poolsCurrent hs.current
  covered := fun c t => calc
    rewardSide.potential t s' c ≤ rewardSide.potential t s c :=
      h.potential_le (.inr fun hn => hn rfl) (.inl fun _ _ => rfl) hs.current t c
    _ ≤ perTokenDecimals * tally (creditedTo c t) s := hs.covered c t
    _ ≤ perTokenDecimals * tally (creditedTo c t) s' := Nat.mul_le_mul_left _ (h.tally_le _)

variable {cm cm' : Commitment} {stake st : Stake}

omit [DecidableEq A] in
theorem owedBy_credit {w r : ℕ} (hs : PoolsCurrent s)
    (found : s.commitments.lookup c = some cm) (credits : Credits w r st cm cm')
    (hs' : s'.commitments = s.commitments.insert c cm') (c' : CommitmentId) (t : ℕ)
    (k : A × CommitmentId) (d : Delegation) :
    rewardSide.owedBy t s' c' k d ≤ rewardSide.owedBy t s c' k d +
      if c = c' ∧ st.created = t then
        (if k.2 = c ∧ st.created ≤ d.stake.created then d.rewardWeight else 0) *
          (r * perTokenDecimals / w)
      else 0 := by
  have hm := (raiseRewardIndex_ok credits.poolRewards).2
  unfold Side.owedBy
  by_cases hk : k.2 = c'
  · rw [if_pos hk, if_pos hk, indexAt_mutate hs found credits.staked hs' hm]
    by_cases hl : c' = c ∧ st.created ≤ d.stake.created
    · obtain ⟨rfl, hle⟩ := hl
      rw [indexAt_current hs found credits.staked hle]
      simp only [hk, hle, and_self, if_true, true_and, Side.valueAt]
      split_ifs
      · calc rewardSide.value d _ ≤ rewardSide.value d (cm.poolRewards.current.2.rewardPerWeight +
              r * perTokenDecimals / w) := rewardSide.value_mono d saturatingAdd_le
          _ ≤ _ := Accrual.claim_add_le _ _ _ _
      · exact Nat.zero_le _
    · rw [if_neg hl]
      exact Nat.le_add_right _ _
  · rw [if_neg hk]
    exact Nat.zero_le _

theorem owed_credit (s' : State T) {w reward : ℕ} (hs : PoolsCurrent s)
    (found : s.commitments.lookup c = some cm) (credits : Credits w reward st cm cm')
    (hs' : s'.commitments = s.commitments.insert c cm') (hd : s'.delegations = s.delegations)
    (hl : liveRewardWeight s c st.created ≤ w) (c' : CommitmentId) (t : ℕ) :
    rewardSide.owed t s' c' ≤ rewardSide.owed t s c' +
      if c = c' ∧ st.created = t then perTokenDecimals * reward else 0 := by
  rw [Side.owed, hd]
  refine (StorageMap.sum_le_sum fun k d _ => owedBy_credit hs found credits hs' c' t k d).trans ?_
  rw [StorageMap.sum_add]
  refine Nat.add_le_add_left ?_ _
  split_ifs
  · rw [StorageMap.sum_mul_right]
    exact Accrual.spread_le hl reward
  · exact (StorageMap.sum_eq_zero fun _ _ _ => rfl).le

theorem Covered.credit {w reward : ℕ} (hs : Covered s)
    (found : s.commitments.lookup c = some cm) (credits : Credits w reward st cm cm')
    (hl : liveRewardWeight s c st.created ≤ w) : Covered { s with
      commitments := s.commitments.insert c cm'
      history := .credited c st.created reward :: s.history } where
  current := (Move.credit found credits trivial : Move (fun _ => True) s _).poolsCurrent hs.current
  covered := fun c' t => by
    have hc := hs.covered c' t
    have ho := owed_credit { s with
      commitments := s.commitments.insert c cm'
      history := .credited c st.created reward :: s.history } hs.current found credits rfl rfl hl
      c' t
    simp only [Side.potential, tally, List.map_cons, List.sum_cons, Side.taken, creditedTo,
      Nat.zero_add, Nat.mul_add] at hc ⊢
    split_ifs at ho ⊢ <;> omega

theorem Covered.moves (h : Moves (· ≠ .credit) s s') (hs : Covered s) : Covered s' :=
  Moves.invariant (fun _ _ => Move.covered) h hs

end Credit

variable {A : Type} [DecidableEq A] {T : Config A} {s s' : State T} {c : CommitmentId}

/-- At a heartbeat that distributes, the delegations that read the index weigh no more than the
weight remembered for the last epoch. -/
def WeightRemembered (s : State T) : Op T → Prop
  | .heartbeat _ _ m _ => ∀ c ∈ s.backingLookup.lookup m, ∀ cm ∈ s.commitments.lookup c,
    ∀ stake ∈ cm.stake, cm.lastScoringEpoch < s.currentCycle.epoch →
      (rememberedWeights s c).delegationsRewardWeight ≠ 0 →
      liveRewardWeight s c stake.created ≤ (rememberedWeights s c).delegationsRewardWeight
  | _ => True

instance (s : State T) (op : Op T) : Decidable (WeightRemembered s op) :=
  Op.casesOn (motive := fun op => Decidable (WeightRemembered s op)) op (fun _ _ => isTrue trivial)
    (fun _ _ m _ => inferInstanceAs (Decidable (∀ c ∈ s.backingLookup.lookup m,
      ∀ cm ∈ s.commitments.lookup c, ∀ stake ∈ cm.stake, cm.lastScoringEpoch < s.currentCycle.epoch →
        (rememberedWeights s c).delegationsRewardWeight ≠ 0 →
        liveRewardWeight s c stake.created ≤ (rememberedWeights s c).delegationsRewardWeight)))
    (isTrue trivial) (fun _ => isTrue trivial)

theorem heartbeat_covered (proc manager : A) (m : ManagerId) (ms : List MetricInput)
    (hw : WeightRemembered s (.heartbeat proc manager m ms)) (hs : Covered s) :
    Covered (commit s proc manager m ms).1 := by
  obtain ⟨s₁, procs, s₂, w, rewards, ho, hre, -, hq⟩ :=
    commit_writes s proc manager m ms
  have hs₁ := hs.moves (Move.moves (ho.move procs (by decide)))
  obtain ⟨_, _, _, rfl⟩ := ho.writes
  rw [hq]
  cases hre with
  | nothing =>
    refine Covered.moves ?_ hs₁
    exact Aside.moves (.of_eq rfl) (.inr (by decide))
  | scored hb hf hfr hc =>
    rcases hc.cases with ⟨-, -, rfl⟩ | ⟨st, r, hr, rfl⟩
    · have hsc := hs₁.moves (Move.moves (hc.move hf (.inl rfl) (by decide)))
      refine Covered.moves ?_ hsc
      exact Aside.moves (.of_eq rfl) (.inr (by decide))
    · refine Covered.moves ?_ (hs₁.credit hf hr ?_)
      · exact Aside.moves (.of_eq rfl) (.inr (by decide))
      exact hw _ hb _ hf _ hr.staked hfr (raiseRewardIndex_ok hr.poolRewards).1

theorem step_covered (s : State T) (op : Op T) (hw : WeightRemembered s op) (hs : Covered s) :
    Covered (step s op) := by
  cases op with
  | heartbeat proc manager m ms =>
    exact heartbeat_covered proc manager m ms hw hs
  | dispatch | block | outside =>
    exact hs.moves (step_moves s _ { credit := .inl rfl })

def accruedIn (c : CommitmentId) (t : ℕ) : Entry A → ℕ
  | .accrued _ c' t' reward _ => if c' = c ∧ t' = t then reward else 0
  | _ => 0

def pendingIn (s : State T) (c : CommitmentId) (t : ℕ) : ℕ :=
  StorageMap.sum s.delegations fun k d =>
    if k.2 = c then (indexAt s c d.stake.created).elim 0 fun e =>
      if e.1 = t then Accrual.due perTokenDecimals d.rewardWeight e.2.rewardPerWeight d.rewardDebt
      else 0
    else 0

theorem mul_pendingIn_le_owed (s : State T) (c : CommitmentId) (t : ℕ) :
    perTokenDecimals * pendingIn s c t ≤ rewardSide.owed t s c := by
  rw [pendingIn, ← StorageMap.sum_mul_left]
  refine StorageMap.sum_le_sum fun k d _ => ?_
  unfold Side.owedBy
  split_ifs
  · cases indexAt s c d.stake.created with
    | none => exact Nat.zero_le _
    | some e =>
      simp only [Option.elim_some, Side.valueAt]
      split_ifs
      · exact Accrual.mul_due_le_claim _ _ _
      · exact Nat.zero_le _
  · exact Nat.zero_le _

/-- In a run whose distributions spread over the weight that reads the index, what the delegators
of a generation accrued and have pending is at most what was credited to it. -/
theorem accrued_add_pending_le_credited (w : T.World) (ops : List (Op T))
    (hrun : Along step WeightRemembered (State.genesis T w) ops) (c : CommitmentId) (t : ℕ) :
    tally (accruedIn c t) (reached w ops) +
        pendingIn (reached w ops) c t ≤
      tally (creditedTo c t) (reached w ops) := by
  have hg : Covered (State.genesis T w) :=
    ⟨genesis_poolsCurrent w, fun c t => by simp [Side.potential, Side.owed, State.genesis, tally]⟩
  have hc := (run_invariant step_covered hrun hg).covered c t
  have hp := mul_pendingIn_le_owed (reached w ops) c t
  refine Nat.le_of_mul_le_mul_left ?_ perTokenDecimals_pos
  rw [Nat.mul_add]
  exact (Nat.add_le_add_left hp _).trans hc

theorem accrued_add_pending_le_credited_rewarded :
    Along step WeightRemembered (State.genesis mock []) rewarded ∧
    tally (accruedIn 0 2) (after rewarded) +
        pendingIn (after rewarded) 0 2 ≤
      tally (creditedTo 0 2) (after rewarded) := by
  have hr : Along step WeightRemembered (State.genesis mock []) rewarded := by decide +kernel
  exact ⟨hr, accrued_add_pending_le_credited _ _ hr 0 2⟩

/-- Account `6` delegates in the fourth epoch before its first heartbeat, and both delegators
withdraw after it. -/
def lateJoin : List (Op mock) :=
  opening ++ [beat, .block, beat, .block, signed 6 (.delegate 2 (30 * unit) 36 false), beat,
    signed 4 (.withdrawDelegation 2), signed 6 (.withdrawDelegation 2)]

/-- The late delegation accrues from an index that was raised for the weight before it. -/
theorem accrued_gt_credited_after_lateJoin :
    tally (creditedTo 0 2) (after lateJoin) = 4994292237442972 ∧
    tally (accruedIn 0 2) (after lateJoin) = 7990867579908874 := by
  decide +kernel

end Acurast.Compute
