import Acurast.Compute.Step

/-! The two sides of a delegation pool, rewards and slashes. Both are accrued lazily from an index,
and neither grows but by a raise of its own index. -/

namespace Acurast.Compute

open Base

variable {A : Type} {T : Config A} {s s' : State T} {c : CommitmentId}

def PoolsCurrent (s : State T) : Prop :=
  ∀ c cm stake, s.commitments.lookup c = some cm → cm.stake = some stake →
    cm.poolRewards.current.1 = stake.created

variable {cm' cm : Commitment} {created : ℕ} {b : MemoryBuffer ℕ PoolReward}
  {old : Option Commitment} {stake : Stake} {g : PoolReward → PoolReward} {f : PoolReward → ℕ}

theorem PoolsCurrent.insert (h : PoolsCurrent s) (hs : s'.commitments = s.commitments.insert c cm')
    (hn : ∀ stake, cm'.stake = some stake → cm'.poolRewards.current.1 = stake.created) :
    PoolsCurrent s' := by
  intro c' cm stake hc ht
  rw [hs] at hc
  rcases of_lookup_insert hc with ⟨-, rfl⟩ | ⟨-, hc⟩
  · exact hn stake ht
  · exact h c' cm stake hc ht

theorem PoolsCurrent.keep {x : ℕ} (h : PoolsCurrent s) (hc : s.commitments.lookup c = some cm)
    (hs : s'.commitments = s.commitments.insert c cm')
    (ht : cm'.stake.map (fun st => (st.amount, st.created)) = some (x, created))
    (hold : cm.stake.map (·.created) = some created)
    (hp : cm'.poolRewards.current.1 = cm.poolRewards.current.1) : PoolsCurrent s' := by
  refine h.insert hs fun stake hn => ?_
  obtain ⟨old, hc', rfl⟩ := Option.map_eq_some_iff.mp hold
  rw [hn, Option.map_some, Option.some.injEq, Prod.mk.injEq] at ht
  rw [hp, h c cm old hc hc', ht.2]

theorem openPoolRewards_current (h : openPoolRewards old created = .ok b) :
    b.current = (created, default) := by
  unfold openPoolRewards at h
  split at h
  · exact MemoryBuffer.current_of_set (okOr_eq_ok.mp h)
  · cases h
    rfl

theorem latestEntry_of_open {time : ℕ} {e : ℕ × PoolReward}
    (h : openPoolRewards old created = .ok b) (he : b.latestEntry time = some e) :
    e.2 = default ∨ old.bind (·.poolRewards.latestEntry time) = some e := by
  unfold openPoolRewards at h
  split at h
  · rcases MemoryBuffer.latestEntry_of_set (okOr_eq_ok.mp h) he with rfl | hold
    · exact .inl rfl
    · exact .inr hold
  · cases h
    unfold MemoryBuffer.latestEntry MemoryBuffer.newWith at he
    split_ifs at he
    exact .inl (by rw [← Option.some.inj he])

theorem raiseRewardIndex_ok {b' : MemoryBuffer ℕ PoolReward} {w reward : ℕ}
    (h : raiseRewardIndex b created w reward = .ok b') : w ≠ 0 ∧
      b.mutate created (fun r =>
        { r with rewardPerWeight := saturatingAdd 256 r.rewardPerWeight (reward * perTokenDecimals / w) }) =
        some b' := by
  simp only [raiseRewardIndex, ok_iff, checkedMul_eq_some, checkedDiv_eq_some] at h
  obtain ⟨scaled, ⟨rfl, -⟩, extra, ⟨hw, rfl⟩, hm⟩ := h
  exact ⟨hw, hm⟩

theorem indexAt_current (hs : PoolsCurrent s) (hm : s.commitments.lookup c = some cm)
    (ht : cm.stake = some stake) (hl : stake.created ≤ created) :
    indexAt s c created = some (stake.created, cm.poolRewards.current.2) := by
  have hc := hs c cm stake hm ht
  rw [indexAt, hm, Option.bind_some, MemoryBuffer.latestEntry_of_current_le (hc ▸ hl), ← hc]

theorem indexAt_mutate (hs : PoolsCurrent s) (hc : s.commitments.lookup c = some cm)
    (ht : cm.stake = some stake) (hs' : s'.commitments = s.commitments.insert c cm')
    (hm : cm.poolRewards.mutate stake.created g = some cm'.poolRewards) (c' : CommitmentId)
    (created : ℕ) : indexAt s' c' created =
      if c' = c ∧ stake.created ≤ created then some (stake.created, g cm.poolRewards.current.2)
      else indexAt s c' created := by
  have hn := (MemoryBuffer.latestEntry_of_mutate hm (hs c cm stake hc ht) created).2
  rw [indexAt, hs', lookup_insert_eq]
  by_cases hq : c' = c
  · rw [if_pos hq, Option.bind_some, hn, indexAt, hq, hc, Option.bind_some]
    simp only [true_and]
  · simp only [hq, false_and, if_false, indexAt]

theorem genesis_poolsCurrent (w : T.World) : PoolsCurrent (State.genesis T w) :=
  fun c cm stake hc => by simp [State.genesis] at hc

variable [DecidableEq A] {allow : Special → Prop}

theorem Move.poolsCurrent (h : Move allow s s') (hs : PoolsCurrent s) : PoolsCurrent s' := by
  cases h with
  | rest hb hcl => simpa only [PoolsCurrent, hb.commitments] using hs
  | adjust hf ha =>
    refine hs.insert rfl fun stake ht => ?_
    have hma := ha.stake
    rw [ht, Option.map_some, eq_comm, Option.map_eq_some_iff] at hma
    obtain ⟨old, hold, hq⟩ := hma
    rw [ha.poolRewards, hs _ _ old hf hold, (Prod.mk.inj hq).2]
  | accrue | revise | payout | close | join | repay | reback | noteSlash => exact hs
  | stake stakes =>
    refine hs.insert rfl fun stake ht => ?_
    rw [stakes.stake_eq, Option.some.injEq] at ht
    rw [openPoolRewards_current stakes.poolRewards, ht]
  | raise hf hsta hr hp =>
    exact hs.keep hf rfl hr (by rw [hsta, Option.map_some]) (by rw [hp])
  | unstake hf hsta hu =>
    exact hs.insert rfl fun stake ht => by rw [hu] at ht; cases ht
  | lowerStake hf hsta hl hp =>
    exact hs.keep hf rfl hl (by rw [hsta, Option.map_some]) (by rw [hp])
  | mark hf hm =>
    refine hs.insert rfl fun stake ht => ?_
    rw [hm.stake] at ht
    rcases hm.poolRewards with hq | ⟨old, hold, hmu⟩
    · rw [hq, hs _ _ stake hf ht]
    · have hcu := hs _ _ old hf hold
      rw [(MemoryBuffer.latestEntry_of_mutate hmu hcu 0).1]
      rw [hold, Option.some.injEq] at ht
      rw [ht]
  | credit hf hc =>
    have hcu := hs _ _ _ hf hc.staked
    refine hs.keep hf rfl hc.stake_eq (by rw [hc.staked, Option.map_some]) ?_
    have hmu := (raiseRewardIndex_ok hc.poolRewards).2
    rw [(MemoryBuffer.latestEntry_of_mutate hmu hcu 0).1, hcu]

/-- No index that is read through `f` has risen: whoever reads one reads zero, or at most what the
same generation had before. -/
def NoRise (f : PoolReward → ℕ) (s s' : State T) : Prop :=
  ∀ c created, ∀ e' ∈ indexAt s' c created, f e'.2 = 0 ∨
    ∃ e ∈ indexAt s c created, e.1 = e'.1 ∧ f e'.2 ≤ f e.2

omit [DecidableEq A] in
theorem NoRise.of_eq (h : indexAt s' = indexAt s) : NoRise f s s' := by
  intro c created e he
  exact .inr ⟨e, h ▸ he, rfl, le_rfl⟩

omit [DecidableEq A] in
theorem NoRise.of_mutate (hs : PoolsCurrent s) (hc : s.commitments.lookup c = some cm)
    (ht : cm.stake = some stake) (hs' : s'.commitments = s.commitments.insert c cm')
    (hm : cm.poolRewards.mutate stake.created g = some cm'.poolRewards)
    (hf : ∀ r, f (g r) = f r) : NoRise f s s' := by
  intro c' created e he
  rw [indexAt_mutate hs hc ht hs' hm] at he
  split_ifs at he with hl
  · obtain rfl := Option.some.inj he
    have hold := indexAt_current hs hc ht hl.2
    exact .inr ⟨(stake.created, cm.poolRewards.current.2), hl.1 ▸ hold, rfl, (hf _).le⟩
  · exact .inr ⟨e, he, rfl, le_rfl⟩

theorem Move.noRise (hz : f default = 0)
    (hcr : (∀ r x, f { r with rewardPerWeight := x } = f r) ∨ ¬ allow .credit)
    (hsl : (∀ r x, f { r with slashPerWeight := x } = f r) ∨ ¬ allow .slash)
    (h : Move allow s s') (hs : PoolsCurrent s) : NoRise f s s' := by
  cases h with
  | rest hb hcl => exact .of_eq (by funext c created; simp only [indexAt, hb.commitments])
  | adjust ho hd => exact .of_eq (indexAt_insert ho rfl hd.poolRewards)
  | accrue | revise | payout | close | join | repay | reback | noteSlash => exact .of_eq rfl
  | stake stakes =>
    intro c' created e he
    rw [indexAt, lookup_insert_eq] at he
    split_ifs at he with hq
    · rw [Option.bind_some] at he
      rcases latestEntry_of_open stakes.poolRewards he with hde | hold
      · exact .inl (by rw [hde, hz])
      · exact .inr ⟨e, by rw [indexAt, hq]; exact hold, rfl, le_rfl⟩
    · exact .inr ⟨e, he, rfl, le_rfl⟩
  | raise ho ht hr hp => exact .of_eq (indexAt_insert ho rfl hp)
  | unstake ho ht hu hp => exact .of_eq (indexAt_insert ho rfl hp)
  | lowerStake ho ht hl hp =>
    exact .of_eq (indexAt_insert ho rfl hp)
  | mark ho hm ha =>
    have hf := hsl.resolve_right (not_not.mpr ha)
    rcases hm.poolRewards with hq | ⟨stake, hst, hmu⟩
    · exact .of_eq (indexAt_insert ho rfl hq)
    · exact .of_mutate hs ho hst rfl hmu fun r => hf r _
  | credit ho hc ha =>
    have hf := hcr.resolve_right (not_not.mpr ha)
    exact .of_mutate hs ho hc.staked rfl (raiseRewardIndex_ok hc.poolRewards).2 fun r => hf r _

/-- One side of a delegation pool: the index it is accrued from, the part of an accrual that is its
own, and what a delegation can still accrue, scaled. -/
structure Side where
  index : PoolReward → ℕ
  part : ℕ → ℕ → ℕ
  scale : ℕ
  value : Delegation → ℕ → ℕ
  index_default : index default = 0
  value_zero : ∀ d, value d 0 = 0
  value_mono : ∀ d {i j}, i ≤ j → value d i ≤ value d j
  value_stake : ∀ d stake i, value { d with stake } i = value d i
  accrues : ∀ {e reward slash d d'}, Accrues e reward slash d d' →
    scale * part reward slash + value d' (index e.2) ≤ value d (index e.2)
  revises : ∀ {e lost d d'}, Revises (some e) lost d d' → value d' (index e.2) ≤ value d (index e.2)
  joins : ∀ {e d}, Joins (some e) d → value d (index e.2) = 0

def rewardSide : Side where
  index := (·.rewardPerWeight)
  part := fun reward _ => reward
  scale := perTokenDecimals
  value := fun d i => Accrual.claim perTokenDecimals d.rewardWeight i d.rewardDebt
  index_default := rfl
  value_zero := fun d => by rw [Accrual.claim, Nat.mul_zero, Nat.zero_sub]
  value_mono := fun d => Accrual.claim_mono
  value_stake := fun d stake i => rfl
  accrues := fun h => by
    rw [h.reward_eq, h.rewardSettled _ rfl]
    exact Accrual.settle perTokenDecimals_pos _ _ _ _
  revises := fun h => by
    rcases h.reward with ⟨hweight, hdebt⟩ | hsettled
    · rw [hweight, hdebt]
    · rw [hsettled _ rfl, Accrual.claim_ceilDebt perTokenDecimals_pos]
      exact Nat.zero_le _
  joins := fun h => by rw [h.rewardSettled _ rfl, Accrual.claim_ceilDebt perTokenDecimals_pos]

def slashSide : Side where
  index := (·.slashPerWeight)
  part := fun _ slash => slash
  scale := 1
  value := fun d i => Accrual.due perTokenDecimals d.slashWeight i d.slashDebt
  index_default := rfl
  value_zero := fun d => by rw [Accrual.due, Nat.mul_zero, Nat.zero_div, Nat.zero_sub]
  value_mono := fun d => Accrual.due_mono
  value_stake := fun d stake i => rfl
  accrues := fun h => by
    rw [h.slashSettled _ rfl, Accrual.due_of_floor_le le_rfl, Accrual.due, ← h.slash_eq]
    rw [Nat.one_mul, Nat.add_zero, Nat.add_sub_cancel_left]
  revises := fun h => by
    rcases h.slash with ⟨hweight, hdebt⟩ | hsettled
    · rw [hweight, hdebt]
    · rw [hsettled _ rfl, Accrual.due_of_floor_le le_rfl]
      exact Nat.zero_le _
  joins := fun h => by rw [h.slashSettled _ rfl, Accrual.due_of_floor_le le_rfl]

namespace Side

variable (σ : Side) (t : ℕ)

def valueAt (d : Delegation) : Option (ℕ × PoolReward) → ℕ
  | some e => if e.1 = t then σ.value d (σ.index e.2) else 0
  | none => 0

def owedBy (s : State T) (c : CommitmentId) (k : A × CommitmentId) (d : Delegation) : ℕ :=
  if k.2 = c then σ.valueAt t d (indexAt s c d.stake.created) else 0

def owed (s : State T) (c : CommitmentId) : ℕ := StorageMap.sum s.delegations (σ.owedBy t s c)

def taken (c : CommitmentId) : Entry A → ℕ
  | .accrued _ c' t' reward slash => if c' = c ∧ t' = t then σ.part reward slash else 0
  | _ => 0

def potential (s : State T) (c : CommitmentId) : ℕ :=
  σ.scale * tally (σ.taken t c) s + σ.owed t s c

variable {σ t}

omit [DecidableEq A] in
theorem valueAt_stake (d : Delegation) (stake : Stake) (index : Option (ℕ × PoolReward)) :
    σ.valueAt t { d with stake } index = σ.valueAt t d index := by
  unfold valueAt
  split
  · rw [σ.value_stake]
  · rfl

omit [DecidableEq A] in
theorem owedBy_le (h : NoRise σ.index s s') (k : A × CommitmentId) (d : Delegation) :
    σ.owedBy t s' c k d ≤ σ.owedBy t s c k d := by
  unfold owedBy
  split_ifs
  · cases he' : indexAt s' c d.stake.created with
    | none => exact Nat.zero_le _
    | some e' =>
      simp only [valueAt]
      split_ifs with ht
      · rcases h c d.stake.created e' he' with hz | ⟨e, he, hg, hl⟩
        · rw [hz, σ.value_zero]
          exact Nat.zero_le _
        · rw [Option.mem_def.mp he]
          simp only [hg, ht, if_true]
          exact σ.value_mono d hl
      · exact Nat.zero_le _
  · exact le_rfl

theorem owed_le (h : NoRise σ.index s s') (hd : s'.delegations = s.delegations) :
    σ.owed t s' c ≤ σ.owed t s c := by
  rw [owed, hd]
  exact StorageMap.sum_le_sum fun k d _ => owedBy_le h k d

variable {d d' : Delegation} {k : A × CommitmentId} {c' : CommitmentId} {who : A}

theorem owed_insert_le (σ : Side) (t : ℕ) (c : CommitmentId) {x : ℕ}
    (hk : s.delegations.lookup k = some d) (h : x + σ.owedBy t s c k d' ≤ σ.owedBy t s c k d) :
    x + StorageMap.sum (s.delegations.insert k d') (σ.owedBy t s c) ≤ σ.owed t s c := by
  have hs := sum_insert_some hk d' (σ.owedBy t s c)
  rw [owed]
  omega

theorem owed_replace_le (σ : Side) (t : ℕ) (c : CommitmentId) (hk : s.delegations.lookup k = some d)
    (h : σ.owedBy t s c k d' ≤ σ.owedBy t s c k d) :
    StorageMap.sum (s.delegations.insert k d') (σ.owedBy t s c) ≤ σ.owed t s c := by
  have hl := owed_insert_le σ t c hk ((Nat.zero_add _).trans_le h)
  rwa [Nat.zero_add] at hl

omit [DecidableEq A] in
theorem owedBy_le_of_revises {lost : ℕ} (h : Revises (indexAt s c' d.stake.created) lost d d') :
    σ.owedBy t s c (who, c') d' ≤ σ.owedBy t s c (who, c') d := by
  unfold owedBy
  split_ifs with hc
  · subst hc
    rw [h.created]
    cases he : indexAt s c' d.stake.created with
    | none => exact le_rfl
    | some e =>
      rw [he] at h
      simp only [valueAt]
      split_ifs
      · exact σ.revises h
      · exact le_rfl
  · exact le_rfl

omit [DecidableEq A] in
theorem owedBy_of_accrues {e : ℕ × PoolReward} {r slash : ℕ}
    (he : indexAt s c' d.stake.created = some e) (h : Accrues e r slash d d') :
    σ.scale * σ.taken t c (.accrued who c' e.1 r slash) + σ.owedBy t s c (who, c') d' ≤
      σ.owedBy t s c (who, c') d := by
  have hv := σ.accrues h
  simp only [owedBy, taken]
  by_cases hc : c' = c
  · subst hc
    simp only [if_true, true_and, h.created, he, valueAt]
    split_ifs
    · exact hv
    · simp
  · simp [hc]

omit [DecidableEq A] in
theorem owedBy_of_joins (h : Joins (indexAt s k.2 d.stake.created) d) : σ.owedBy t s c k d = 0 := by
  unfold owedBy
  split_ifs with hc
  · subst hc
    cases he : indexAt s k.2 d.stake.created with
    | none => rfl
    | some e =>
      rw [he] at h
      simp only [valueAt]
      split_ifs
      · exact σ.joins h
      · rfl
  · rfl

end Side

theorem step_poolsCurrent (s : State T) (op : Op T) (hs : PoolsCurrent s) :
    PoolsCurrent (step s op) :=
  Moves.invariant (fun _ _ => Move.poolsCurrent)
    (step_moves s op {} : Moves (fun _ => True) s (step s op)) hs

theorem Move.potential_le {σ : Side}
    (hcr : (∀ r x, σ.index { r with rewardPerWeight := x } = σ.index r) ∨ ¬ allow .credit)
    (hl : (∀ r x, σ.index { r with slashPerWeight := x } = σ.index r) ∨ ¬ allow .slash)
    (h : Move allow s s') (hs : PoolsCurrent s) (t : ℕ) (c : CommitmentId) :
    σ.potential t s' c ≤ σ.potential t s c := by
  have hri := Move.noRise σ.index_default hcr hl h hs
  unfold Side.potential
  cases h with
  | rest hb hcl =>
    rw [tally, hb.history]
    exact Nat.add_le_add_left (Side.owed_le hri hb.delegations) _
  | adjust | stake | raise | unstake | lowerStake | reback =>
    exact Nat.add_le_add_left (Side.owed_le hri rfl) _
  | accrue hd hn ha =>
    have hle := Side.owed_insert_le σ t c hd (Side.owedBy_of_accrues hn ha)
    simp only [tally, List.map_cons, List.sum_cons, Nat.mul_add]
    rw [Nat.add_right_comm, Nat.add_comm _ (σ.scale * (s.history.map _).sum)]
    exact Nat.add_le_add_left hle _
  | revise hd hc hr =>
    exact Nat.add_le_add_left (Side.owed_replace_le σ t c hd (Side.owedBy_le_of_revises hr)) _
  | @payout who c' d paid hd =>
    have hq : σ.owedBy t s c (who, c') { d with stake := { d.stake with accruedReward := 0, paid } } =
        σ.owedBy t s c (who, c') d := by
      simp only [Side.owedBy, Side.valueAt_stake]
    simp only [tally, List.map_cons, List.sum_cons, Side.taken, Nat.zero_add]
    exact Nat.add_le_add_left (Side.owed_replace_le σ t c hd hq.le) _
  | @close who c' d hd hp hc =>
    have hu := sum_erase_some hd (σ.owedBy t s c)
    exact Nat.add_le_add_left (Nat.le.intro hu) _
  | @join who c' d free hj =>
    have hu := sum_insert_none free d (σ.owedBy t s c)
    rw [Side.owedBy_of_joins hj, Nat.add_zero] at hu
    exact Nat.add_le_add_left hu.le _
  | repay | noteSlash | credit =>
    simp only [tally, List.map_cons, List.sum_cons, Side.taken, Nat.zero_add]
    exact Nat.add_le_add_left (Side.owed_le hri rfl) _
  | mark =>
    simp only [tally, List.map_append, List.sum_append]
    rw [tally_charges fun _ _ _ _ => rfl, Nat.zero_add]
    exact Nat.add_le_add_left (Side.owed_le hri rfl) _

end Acurast.Compute
