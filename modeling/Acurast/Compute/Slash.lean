import Acurast.Compute.CommitmentMoves

/-! A slash call: what it will take from the committer as the storage stands, and what it leaves. -/

namespace Acurast.Compute

open Base

variable {A : Type} {T : Config A}

def rememberedWeights (s : State T) (c : CommitmentId) : CommitmentWeights :=
  ((s.commitments.lookup c).bind (·.weights.getLatest (s.currentCycle.epoch - 1))).getD default

def owedSlash (s : State T) (c : CommitmentId) : ℕ :=
  match s.commitments.lookup c, s.backings.lookup c with
  | some cm, some m =>
    let totalStake := cm.stake.elim 0 (·.amount) + cm.delegationsTotalAmount
    ((iterPrefix s.computeCommitments c).map fun p =>
      (s.metricPools.lookup p.1).elim 0 fun pool => (chargeOf s (s.currentCycle.epoch - 1)
        cm.lastSlashingEpoch m totalStake pool p.1 p.2).2).sum
  | _, _ => 0

def committerShare (s : State T) (c : CommitmentId) : ℕ :=
  (rememberedWeights s c).selfSlashWeight * owedSlash s c / (rememberedWeights s c).totalSlashWeight

variable {allow : Special → Prop} {s s' : State T} {who slasher : A} {c : CommitmentId}

variable {lastEpoch lost : ℕ} {plan : SlashPlan} {shares : SlashShares}

theorem addSlashes_ok {lastSlashing m totalStake total sum : ℕ} {committed : List (PoolId × Metric)}
    {charges charges' : List (PoolId × ℕ)}
    (h : addSlashes s lastEpoch lastSlashing m totalStake committed (total, charges) =
      .ok (sum, charges')) (ht : total < 2 ^ 128) :
    sum < 2 ^ 128 ∧ sum = total + (committed.map fun p =>
      (s.metricPools.lookup p.1).elim 0 fun pool =>
        (chargeOf s lastEpoch lastSlashing m totalStake pool p.1 p.2).2).sum ∧
      charges' = charges ++ committed.map fun p =>
        (p.1, missedEpochsOf lastEpoch lastSlashing (sumAt s m p.1)) := by
  induction committed generalizing total charges with
  | nil =>
    obtain ⟨rfl, rfl⟩ := h
    exact ⟨ht, rfl, (List.append_nil _).symm⟩
  | cons p rest ih =>
    simp only [addSlashes, ok_iff, checkedAdd_eq_some] at h
    obtain ⟨pool, hp, next, ⟨rfl, hl⟩, hr⟩ := h
    obtain ⟨hs, hq, hc⟩ := ih hr hl
    refine ⟨hs, ?_, ?_⟩
    · rw [hq, List.map_cons, List.sum_cons, hp, Option.elim_some, Nat.add_assoc]
    · rw [hc, List.append_assoc]
      rfl

structure Planned (s : State T) (c : CommitmentId) (plan : SlashPlan) (cm : Commitment)
    (m : ManagerId) : Prop where
  found : s.commitments.lookup c = some cm
  staked : cm.stake.isSome
  backed : s.backings.lookup c = some m
  lastEpoch : plan.lastEpoch + 1 = s.currentCycle.epoch
  fresh : cm.lastSlashingEpoch < plan.lastEpoch
  weights : plan.weights = rememberedWeights s c
  total : plan.totalSlashAmount = owedSlash s c
  total_lt : plan.totalSlashAmount < 2 ^ 128
  charges : plan.charges = (iterPrefix s.computeCommitments c).map fun p =>
    (p.1, missedEpochsOf plan.lastEpoch cm.lastSlashingEpoch (sumAt s m p.1))

theorem planSlash_ok (h : planSlash s c = .ok plan) : ∃ cm m, Planned s c plan cm m := by
  simp only [planSlash, ok_iff, checkedSub_eq_some, checkedAdd_eq_some, Prod.exists] at h
  obtain ⟨last, ⟨hl, rfl⟩, cm, hc, st, hs, -, hf, m, hm, -, ⟨rfl, -⟩, sum, charges, hu, -, -, rfl⟩ := h
  obtain ⟨ht, hq, hch⟩ := addSlashes_ok hu (by decide)
  refine ⟨cm, m, hc, by rw [hs]; rfl, hm, Nat.sub_add_cancel hl, hf, ?_, ?_, ht, hch⟩
  · rw [rememberedWeights, hc, Option.bind_some]
  · simp only [owedSlash, hc, hm, hs, hq, Nat.zero_add, Option.elim_some]

theorem splitSlash_ok {w : CommitmentWeights} {total : ℕ} (h : splitSlash w total = .ok shares)
    (ht : total < 2 ^ 128) :
    shares.selfSlashAmount = w.selfSlashWeight * total / w.totalSlashWeight ∧
      shares.selfSlashAmount + shares.delegationsSlashAmount = total ∧
      ∀ i ∈ shares.slashPerWeightIncrease,
        i = shares.delegationsSlashAmount * perTokenDecimals / w.delegationsSlashWeight := by
  simp only [splitSlash, ok_iff, checkedMul_eq_some, checkedDiv_eq_some, checkedSub_eq_some] at h
  obtain ⟨-, ⟨rfl, -⟩, self, ⟨-, rfl⟩, rest, ⟨hl, rfl⟩, h⟩ := h
  have hs := saturatedInto_eq_self (Nat.lt_of_le_of_lt hl ht)
  have hr := saturatedInto_eq_self (Nat.lt_of_le_of_lt
    (Nat.sub_le total (w.selfSlashWeight * total / w.totalSlashWeight)) ht)
  rw [hs, hr] at h
  split_ifs at h
  · simp only [ok_iff, checkedMul_eq_some, checkedDiv_eq_some] at h
    obtain ⟨-, ⟨rfl, -⟩, increase, ⟨-, rfl⟩, rfl⟩ := h
    refine ⟨rfl, Nat.add_sub_cancel' hl, ?_⟩
    rintro i ⟨rfl⟩
    rfl
  · cases h
    exact ⟨rfl, Nat.add_sub_cancel' hl, by simp⟩

theorem Planned.selfSlashAmount_eq {cm : Commitment} {m : ManagerId} (h : Planned s c plan cm m)
    (hs : splitSlash plan.weights plan.totalSlashAmount = .ok shares) :
    shares.selfSlashAmount = committerShare s c := by
  rw [(splitSlash_ok hs h.total_lt).1, h.weights, h.total, committerShare]

theorem creditSlasher_world (s : State T) (slasher : A) (r credit : ℕ) : ∃ world,
    Trades T s.world world ∧ creditSlasher s slasher r credit = { s with world } := by
  unfold creditSlasher
  split_ifs
  · exact ⟨_, .single .burn, rfl⟩
  · dsimp only
    split
    · next w hw => exact ⟨_, .tail (.single (.resolve hw)) .burn, rfl⟩
    · exact ⟨_, .single .burn, rfl⟩

theorem markSlashed_ok {increase : Option ℕ} (h : markSlashed s c lastEpoch increase = .ok s') :
    ∃ cm cm', s.commitments.lookup c = some cm ∧ Marks lastEpoch increase cm cm' ∧
      s' = { s with commitments := s.commitments.insert c cm' } := by
  simp only [markSlashed, ok_iff, whenSome_eq_ok] at h
  obtain ⟨cm, hc, st, hs, pool, hp, rfl⟩ := h
  refine ⟨cm, { cm with poolRewards := pool, lastSlashingEpoch := lastEpoch }, hc,
    ⟨rfl, ?_, rfl, rfl, ⟨rfl, rfl, rfl, rfl⟩⟩, rfl⟩
  rcases hp with ⟨-, rfl⟩ | ⟨increase, rfl, hm⟩
  · exact .inl rfl
  · exact .inr ⟨st, hs, hm⟩

variable [DecidableEq A]

structure Taken (s s' : State T) (c : CommitmentId) (lost : ℕ) : Prop where
  delegations : s'.delegations = s.delegations
  index : indexAt s' = indexAt s
  stake : ∀ cm stake, s.commitments.lookup c = some cm → cm.stake = some stake →
    ∃ cm' stake', s'.commitments.lookup c = some cm' ∧ cm'.stake = some stake' ∧
      stake'.amount = stake.amount - lost ∧ stake'.created = stake.created ∧
      cm'.poolRewards = cm.poolRewards

omit [DecidableEq A] in
theorem Taken.congr {s₁ s₂ : State T} (h : Taken s s₁ c lost) (hc : s₂.commitments = s₁.commitments)
    (hd : s₂.delegations = s₁.delegations) :
    Taken s s₂ c lost where
  delegations := hd.trans h.delegations
  index := by rw [← h.index]; funext c' created; simp only [indexAt, hc]
  stake := by rw [hc]; exact h.stake

theorem decreaseCommitterStake_taken (h : decreaseCommitterStake s who c lost = .ok s') :
    Taken s s' c lost ∧ s'.history = s.history := by
  simp only [decreaseCommitterStake, ok_iff] at h
  obtain ⟨cm, hc, st, hs, s₁, hl, w, -, weights, -, s₂, ht, rfl⟩ := h
  obtain ⟨-, rfl⟩ := updateTotalStake_sub.mp ht
  obtain rfl := lockFunds_ok hl
  refine ⟨⟨rfl, indexAt_insert hc rfl rfl, ?_⟩, rfl⟩
  intro cm' st' hc' hs'
  obtain rfl := Option.mem_unique hc hc'
  obtain rfl := Option.mem_unique hs hs'
  exact ⟨_, _, AList.lookup_insert _, rfl, rfl, rfl, rfl⟩

theorem slashCommitter_taken (h : slashCommitter s who c lost = .ok s') :
    Taken s s' c lost ∧ s'.history = s.history := by
  unfold slashCommitter at h
  split_ifs at h with hz
  · cases h
    refine ⟨⟨rfl, rfl, fun cm st hc hs => ?_⟩, rfl⟩
    exact ⟨cm, st, hc, hs, by rw [hz, Nat.sub_zero], rfl, rfl⟩
  · exact decreaseCommitterStake_taken h

theorem slashCommitter_ok (h : slashCommitter s who c lost = .ok s')
    (hl : lost ≤ stakeAmount s c ∨ allow .overslash) : Moves allow s s' := by
  unfold slashCommitter at h
  split_ifs at h
  · cases h
    exact .refl _
  · exact decreaseCommitterStake_ok h hl

/-- What a slash does once its plan is made: the committer's part is taken, and the commitment is
marked. `s₁` is the state in between. -/
structure Slashes (allow : Special → Prop) (s s' s₁ : State T) (c : CommitmentId) (plan : SlashPlan)
    (shares : SlashShares) (committer : A) (credit : ℕ) (cm₁ cm' : Commitment) : Prop where
  split : splitSlash plan.weights plan.totalSlashAmount = .ok shares
  moves : Moves allow s s₁
  taken : Taken s s₁ c shares.selfSlashAmount
  history : s₁.history = .slashed c committer credit :: s.history
  withdrawn : ∃ s₀ s₂ : State T, slashFor s₀ committer shares.selfSlashAmount = .ok (s₂, credit)
  found : s₁.commitments.lookup c = some cm₁
  marks : Marks plan.lastEpoch shares.slashPerWeightIncrease cm₁ cm'
  result : s' = { s₁ with
    commitments := s₁.commitments.insert c cm'
    history := plan.charges.map (fun p => .charged c p.1 plan.lastEpoch p.2) ++ s₁.history }

theorem doSlash_cases (allow : Special → Prop) (h : doSlash s c slasher = .ok s')
    (ho : committerShare s c ≤ stakeAmount s c ∨ allow .overslash) :
    ∃ plan cm m, Planned s c plan cm m ∧ ((plan.weights.totalSlashWeight = 0 ∧ s' = s) ∨
      ∃ shares owner credit s₁ cm₁ cm',
        Slashes allow s s' s₁ c plan shares owner credit cm₁ cm') := by
  simp only [doSlash, bind_eq_ok] at h
  obtain ⟨plan, hp, h⟩ := h
  obtain ⟨cm, m, hp⟩ := planSlash_ok hp
  refine ⟨plan, cm, m, hp, ?_⟩
  split_ifs at h with hz
  · exact .inl ⟨hz, (pure_eq_ok.mp h).symm⟩
  · simp only [ok_iff, Prod.exists] at h
    obtain ⟨shares, hs, owner, -, s₁, hl, s₂, credit, ht, s₄, hm, rfl⟩ := h
    have hmo := slashCommitter_ok hl (hp.selfSlashAmount_eq hs ▸ ho)
    obtain ⟨ha, hh⟩ := slashCommitter_taken hl
    obtain ⟨⟨w, -, rfl⟩, -⟩ := slashFor_ok ht
    obtain ⟨w', -, hc⟩ := creditSlasher_world
      (({ s₁ with world := w } : State T).log (.slashed c owner credit)) slasher
      (if shares.selfSlashAmount < T.slashRewardRatio.mulFloor plan.totalSlashAmount then
        shares.selfSlashAmount else T.slashRewardRatio.mulFloor plan.totalSlashAmount) credit
    rw [hc] at hm
    obtain ⟨cm₃, cm', hc₃, hr, rfl⟩ := markSlashed_ok hm
    refine .inr ⟨shares, owner, credit, _, cm₃, cm', hs, ?_, ?_, ?_, ⟨s₁, _, ht⟩, hc₃, hr, rfl⟩
    · exact hmo.trans ((Moves.world rfl).trans (.step .noteSlash (.world rfl)))
    · exact ha.congr rfl rfl
    · exact congrArg (_ :: ·) hh

theorem doSlash_moves (h : doSlash s c slasher = .ok s') (hl : allow .slash)
    (ho : committerShare s c ≤ stakeAmount s c ∨ allow .overslash) : Moves allow s s' := by
  obtain ⟨plan, cm, m, -, ⟨-, rfl⟩ | ⟨shares, owner, credit, s₁, cm₁, cm', hs⟩⟩ :=
    doSlash_cases allow h ho
  · exact .refl _
  · rw [hs.result]
    exact hs.moves.trans (Move.moves (.mark hs.found hs.marks hl))

end Acurast.Compute
