import Acurast.Compute.Mock

/-! What holds of every single stake, a committer's or a delegator's: the bounds of its cooldown
period, and how much of its amount is rewarded. -/

namespace Acurast.Compute

open Base

variable {A : Type} {T : Config A} {b b' : Terms A} {P : Stake → Prop} {allow : Clause → Prop}

structure Terms.Each (b : Terms A) [DecidableEq A] (P : Stake → Prop) : Prop where
  commitments : ∀ c cm stake, b.commitments.lookup c = some cm → cm.stake = some stake → P stake
  delegations : ∀ who c d, b.delegations.lookup (who, c) = some d → P d.stake

structure Lasts (T : Config A) (allow : Clause → Prop) (P : Stake → Prop) : Prop where
  terms : ∀ stake stake', stake'.terms = stake.terms → P stake → P stake'
  restates : ∀ block stake stake', Restates T allow block stake stake' → P stake → P stake'
  tends : ∀ stake stake', Tends T stake stake' → P stake → P stake'
  new : ∀ amount block period auto, T.minCooldownPeriod ≤ period → period ≤ T.maxCooldownPeriod →
    P (Stake.new amount block period auto)

variable {cm' : Commitment} {stake' st' stake st : Stake} {c : CommitmentId}

theorem Agrees.stake_of_some {cm : Commitment} (h : Agrees cm cm')
    (hs : cm'.stake = some st') :
    ∃ st, cm.stake = some st ∧ st'.terms = st.terms := by
  have hm := h.stake
  rw [hs, Option.map_some] at hm
  obtain ⟨st, hold, ht⟩ := Option.map_eq_some_iff.mp hm.symm
  exact ⟨st, hold, ht.symm⟩

variable [DecidableEq A]

theorem Terms.Each.setCommitment (hb : b.Each P)
    (ho : b'.commitments = b.commitments.insert c cm')
    (hd : b'.delegations = b.delegations)
    (hn : ∀ st, cm'.stake = some st → P st) : b'.Each P := by
  constructor
  · intro c' cm st hc hs
    rw [ho] at hc
    rcases of_lookup_insert hc with ⟨-, rfl⟩ | ⟨-, hc⟩
    · exact hn st hs
    · exact hb.commitments c' cm st hc hs
  · rw [hd]
    exact hb.delegations

theorem Terms.Each.setDelegation {who : A} {d' : Delegation} (hb : b.Each P)
    (hc : b'.commitments = b.commitments)
    (hde : b'.delegations = b.delegations.insert (who, c) d') (hn : P d'.stake) :
    b'.Each P := by
  constructor
  · rw [hc]
    exact hb.commitments
  · intro who' c' d hd
    rw [hde] at hd
    rcases of_lookup_insert hd with ⟨-, rfl⟩ | ⟨-, hd⟩
    · exact hn
    · exact hb.delegations who' c' d hd

theorem Amends.each (hP : Lasts T allow P) (h : Amends T allow b b') (hb : b.Each P) : b'.Each P := by
  cases h with
  | tick => exact ⟨hb.commitments, hb.delegations⟩
  | agree hf ha =>
    refine hb.setCommitment rfl rfl fun stake' ht' => ?_
    obtain ⟨stake, hst, hte⟩ := ha.stake_of_some ht'
    exact hP.terms stake stake' hte (hb.commitments _ _ stake hf hst)
  | restate hf hs hs' hr =>
    refine hb.setCommitment rfl rfl fun stake hst => ?_
    obtain rfl := Option.mem_unique hs' hst
    exact hP.restates _ _ _ hr (hb.commitments _ _ _ hf hs)
  | lowerCommission hf =>
    exact hb.setCommitment rfl rfl fun stake hst => hb.commitments _ _ stake hf hst
  | raiseCommission hf =>
    exact hb.setCommitment rfl rfl fun stake hst => hb.commitments _ _ stake hf hst
  | stake free hs min max =>
    refine hb.setCommitment rfl rfl fun stake hst => ?_
    obtain rfl := Option.mem_unique hs hst
    exact hP.new _ _ _ _ min max
  | unstake hf hs hu =>
    refine hb.setCommitment rfl rfl fun stake hst => ?_
    rw [hu] at hst
    cases hst
  | tend hde ht =>
    exact hb.setDelegation rfl rfl (hP.tends _ _ ht (hb.delegations _ _ _ hde))
  | @leave who c =>
    refine ⟨hb.commitments, fun who' c' d hd => ?_⟩
    exact hb.delegations who' c' d (of_lookup_erase hd).2
  | join hf hs hc new min max =>
    refine hb.setDelegation rfl rfl ?_
    rw [new]
    exact hP.new _ _ _ _ min max

theorem run_each (hP : Lasts T allow P) (w : T.World) {ops : List (Op T)}
    (hr : Along step (Permits allow) (State.genesis T w) ops) :
    (reached w ops).terms.Each P := by
  have hk : ∀ (s : State T) op, Permits allow s op → s.terms.Each P →
      (step s op).terms.Each P := by
    intro s op ho hs
    exact Amendments.invariant (fun b b' h hb => h.each hP hb) (step_terms s op ho) hs
  refine run_invariant hk hr ⟨?_, ?_⟩
  · intro c cm st hc
    simp [State.genesis, State.terms] at hc
  · intro who c d hd
    simp [State.genesis, State.terms] at hd

def InBounds (T : Config A) (stake : Stake) : Prop :=
  T.minCooldownPeriod ≤ stake.cooldownPeriod ∧ stake.cooldownPeriod ≤ T.maxCooldownPeriod

def NotAboveMax (T : Config A) : Clause → Prop
  | .longer period => period ≤ T.maxCooldownPeriod
  | .stake _ => True

omit [DecidableEq A] in
theorem inBounds_lasts (T : Config A) : Lasts T (NotAboveMax T) (InBounds T) where
  terms st st' ht hs := by
    have hp : st'.cooldownPeriod = st.cooldownPeriod :=
      congrArg (fun terms => terms.2.2.2.1) ht
    rw [InBounds, hp]
    exact hs
  restates block st st' h hs := by
    rcases h.cooldownPeriod with ha | ⟨hl, hm⟩
    · rw [InBounds, ha]
      exact hs
    · exact ⟨hs.1.trans hl, hm⟩
  tends st st' h hs := by
    rw [InBounds, h.cooldownPeriod]
    exact hs
  new amount block period auto hn hm := ⟨hn, hm⟩

omit [DecidableEq A] in
theorem InBounds.weight_le (h : InBounds T st) (amount : ℕ) :
    amount * st.cooldownPeriod / T.maxCooldownPeriod ≤ amount := by
  apply Nat.div_le_of_le_mul
  rw [Nat.mul_comm T.maxCooldownPeriod]
  exact Nat.mul_le_mul_left amount h.2

theorem cooldownPeriod_inBounds (w : T.World) (ops : List (Op T))
    (hops : ∀ op ∈ ops, ∀ period ∈ op.requestedPeriod, period ≤ T.maxCooldownPeriod) :
    (∀ c cm stake, (reached w ops).commitments.lookup c = some cm →
      cm.stake = some stake → InBounds T stake ∧
        stake.amount * stake.cooldownPeriod / T.maxCooldownPeriod ≤ stake.amount) ∧
    (∀ who c d, (reached w ops).delegations.lookup (who, c) = some d →
      InBounds T d.stake ∧
        d.stake.amount * d.stake.cooldownPeriod / T.maxCooldownPeriod ≤ d.stake.amount) := by
  have hr : Along step (Permits (NotAboveMax T)) (State.genesis T w) ops :=
    (Along.of_mem hops).imp fun s op ho => ⟨fun c _ => trivial, ho⟩
  have ha := run_each (inBounds_lasts T) w hr
  constructor
  · intro c cm stake hc hs
    have hb := ha.commitments c cm stake hc hs
    exact ⟨hb, hb.weight_le stake.amount⟩
  · intro who c d hd
    have hb := ha.delegations who c d hd
    exact ⟨hb, hb.weight_le d.stake.amount⟩

def lengthened (period : ℕ) : List (Op mock) :=
  opening ++ [signed 2 (.stakeMore 0 (some period) none none none)]

theorem cooldownPeriod_inBounds_of_lengthened :
    ∃ cm stake, (after (lengthened 108)).commitments.lookup 0 = some cm ∧
      cm.stake = some stake ∧ stake.cooldownPeriod = 108 ∧ InBounds mock stake ∧
      stake.amount * stake.cooldownPeriod / mock.maxCooldownPeriod ≤ stake.amount := by
  have ho : ∀ op ∈ lengthened 108, ∀ period ∈ op.requestedPeriod, period ≤ mock.maxCooldownPeriod := by
    decide
  have hp : (((after (lengthened 108)).commitments.lookup 0).bind
      (·.stake)).map (·.cooldownPeriod) = some 108 := by
    decide +kernel
  obtain ⟨stake, hs, hp⟩ := Option.map_eq_some_iff.mp hp
  obtain ⟨cm, hc, hs⟩ := Option.bind_eq_some_iff.mp hs
  have hb := (cooldownPeriod_inBounds (T := mock) [] (lengthened 108) ho).1 0 cm stake hc hs
  exact ⟨cm, stake, hc, hs, hp, hb⟩

/-- The period of a stake is raised to ten times the longest one, and its weight with it. -/
theorem cooldownPeriod_gt_of_lengthened : mock.maxCooldownPeriod = 108 ∧
    (((after (lengthened 1080)).commitments.lookup 0).bind
      (·.stake)).map (fun stake => (stake.amount, stake.cooldownPeriod,
        stake.amount * stake.cooldownPeriod / mock.maxCooldownPeriod)) =
      some (10 * unit, 1080, 100 * unit) := by
  decide +kernel

def Rewardable (T : Config A) (stake : Stake) : Prop :=
  stake.rewardableAmount = rewardableOf T stake stake.amount

omit [DecidableEq A] in
theorem rewardable_of_same (ha : stake'.amount = stake.amount)
    (hr : stake'.rewardableAmount = stake.rewardableAmount)
    (hs : stake'.cooldownStarted = stake.cooldownStarted) (h : Rewardable T stake) :
    Rewardable T stake' := by
  unfold Rewardable rewardableOf at h ⊢
  rw [ha, hr, hs]
  exact h

omit [DecidableEq A] in
theorem rewardable_of_terms (ht : stake'.terms = stake.terms) (h : Rewardable T stake) :
    Rewardable T stake' := by
  simp only [Stake.terms, Prod.mk.injEq] at ht
  obtain ⟨ha, hr, -, -, hs⟩ := ht
  exact rewardable_of_same ha hr hs h

omit [DecidableEq A] in
theorem rewardable_lasts (T : Config A) : Lasts T (fun _ => True) (Rewardable T) where
  terms st st' ht hs := rewardable_of_terms ht hs
  restates block st st' h hs := by
    rcases h.rewardable with hn | ⟨hm, hr, ha⟩
    · exact hn
    · exact rewardable_of_same hm hr ha hs
  tends st st' h hs := by
    rcases h.rewardable with ht | hn
    · exact rewardable_of_terms ht hs
    · exact hn
  new amount block period auto hmi hx := rfl

omit [DecidableEq A] in
theorem Rewardable.le (h : Rewardable T st) : st.rewardableAmount ≤ st.amount := by
  rw [h, rewardableOf]
  split_ifs
  · exact PerThing.mulFloor_le _ _
  · exact le_rfl

omit [DecidableEq A] in
theorem Rewardable.eq_iff (h : Rewardable T st) : st.rewardableAmount = st.amount ↔
      st.cooldownStarted = none ∨ T.cooldownRewardRatio.mulFloor st.amount = st.amount := by
  rw [h, rewardableOf]
  cases st.cooldownStarted with
  | none => simp
  | some start => simp

/-- The states in which a call accrues a delegation: the one it begins in and, where a reward is
compounded, the one after the reward was taken out. -/
def AccruesIn (s s' : State T) : Prop :=
  s' = s ∨ ∃ who c reward, withdrawDelegationFor s who c = .ok (s', reward)

omit [DecidableEq A] in
theorem sanitizeDelegation_of_rewardable {s : State T} {d : Delegation} (c : CommitmentId)
    (h : Rewardable T d.stake) : sanitizeDelegation s c d = .ok (s, d) := by
  unfold sanitizeDelegation
  rw [if_pos h.le]
  rfl

theorem rewardableAmount_invariant (w : T.World) (ops : List (Op T)) :
    (∀ c cm stake, (reached w ops).commitments.lookup c = some cm →
      cm.stake = some stake → stake.rewardableAmount ≤ stake.amount ∧
        (stake.rewardableAmount = stake.amount ↔ stake.cooldownStarted = none ∨
          T.cooldownRewardRatio.mulFloor stake.amount = stake.amount)) ∧
    (∀ who c d, (reached w ops).delegations.lookup (who, c) = some d →
      d.stake.rewardableAmount ≤ d.stake.amount ∧
        (d.stake.rewardableAmount = d.stake.amount ↔ d.stake.cooldownStarted = none ∨
          T.cooldownRewardRatio.mulFloor d.stake.amount = d.stake.amount)) ∧
    (∀ s, AccruesIn (reached w ops) s → ∀ who c d accruedReward accruedSlash,
      s.delegations.lookup (who, c) = some d →
        sanitizeDelegation s c { d with stake := { d.stake with accruedReward, accruedSlash } } =
          .ok (s, { d with stake := { d.stake with accruedReward, accruedSlash } })) := by
  have hl : Along step (Permits (fun _ => True)) (State.genesis T w) ops :=
    Along.of_forall (fun s op => ⟨fun _ _ => trivial, fun _ _ => trivial⟩) ops
  have ha := run_each (rewardable_lasts T) w hl
  refine ⟨?_, ?_, ?_⟩
  · intro c cm stake hc ht
    have hr := ha.commitments c cm stake hc ht
    exact ⟨hr.le, hr.eq_iff⟩
  · intro who c d hd
    have hr := ha.delegations who c d hd
    exact ⟨hr.le, hr.eq_iff⟩
  · intro s hs who c d accruedReward accruedSlash hd
    have hse : s.terms.Each (Rewardable T) := by
      rcases hs with rfl | ⟨who', c', reward, hw⟩
      · exact ha
      · exact Amendments.invariant (fun b b' h hb => h.each (rewardable_lasts T) hb)
          (withdrawDelegationFor_ok (fun _ => True) hw).1.terms ha
    apply sanitizeDelegation_of_rewardable
    exact rewardable_of_terms rfl (hse.delegations who c d hd)

def cooling : List (Op mock) := opening ++ [signed 4 (.cooldownDelegation 2)]

theorem rewardableAmount_of_cooling :
    ∃ d, (after cooling).delegations.lookup (4, 0) = some d ∧
      d.stake.rewardableAmount ≤ d.stake.amount ∧
      (d.stake.rewardableAmount = d.stake.amount ↔ d.stake.cooldownStarted = none ∨
        mock.cooldownRewardRatio.mulFloor d.stake.amount = d.stake.amount) := by
  have hs : ((after cooling).delegations.lookup (4, 0)).isSome := by
    decide +kernel
  obtain ⟨d, hd⟩ := Option.isSome_iff_exists.mp hs
  exact ⟨d, hd, (rewardableAmount_invariant (T := mock) [] cooling).2.1 4 0 d hd⟩

end Acurast.Compute
