import Acurast.Compute.StakeBounds

/-! No overstaking by a raise of the weight. A delegation and a raise of the amount are checked when
the new weights are known; a longer period alone is not. -/

namespace Acurast.Compute

open Base

variable {A : Type} {T : Config A} {s s' : State T} {c : CommitmentId}

def totalWeightOf (s : State T) (c : CommitmentId) : ℕ :=
  (s.commitments.lookup c).elim 0 fun cm =>
    ((cm.weights.getLatest s.currentCycle.epoch).getD default).totalRewardWeight

theorem overstakedIn_congr (hc : s'.currentCycle = s.currentCycle)
    (hb : s'.stakeBasedRewards = s.stakeBasedRewards)
    (hs : s'.metricsEpochSum = s.metricsEpochSum) (last : ℕ) (m : ManagerId) (w : ℕ)
    (committed : List (PoolId × Metric)) :
    overstakedIn s' last m w committed = overstakedIn s last m w committed := by
  induction committed with
  | nil => rfl
  | cons entry rest ih =>
    simp only [overstakedIn, hc, hb, hs, ih]

theorem isCommitmentOverstaked_congr (hy : s'.currentCycle = s.currentCycle)
    (hb : s'.backings = s.backings) (hc : s'.computeCommitments = s.computeCommitments)
    (hu : s'.stakeBasedRewards = s.stakeBasedRewards)
    (hs : s'.metricsEpochSum = s.metricsEpochSum) (cm : Commitment) :
    isCommitmentOverstaked s' c cm = isCommitmentOverstaked s c cm := by
  simp only [isCommitmentOverstaked, hy, hb, hc, overstakedIn_congr hy hu hs]

def NotOverstaked (s : State T) (c : CommitmentId) : Prop :=
  ∃ cm, s.commitments.lookup c = some cm ∧ isCommitmentOverstaked s c cm = .ok false

theorem notOverstaked_insert {cm : Commitment} (h : isCommitmentOverstaked s c cm = .ok false)
    (hc : s'.commitments = s.commitments.insert c cm)
    (hy : s'.currentCycle = s.currentCycle) (hb : s'.backings = s.backings)
    (ho : s'.computeCommitments = s.computeCommitments)
    (hu : s'.stakeBasedRewards = s.stakeBasedRewards)
    (hs : s'.metricsEpochSum = s.metricsEpochSum) : NotOverstaked s' c := by
  refine ⟨cm, ?_, ?_⟩
  · rw [hc, AList.lookup_insert]
  · rw [isCommitmentOverstaked_congr hy hb ho hu hs, h]

def targetOf (s : State T) (p : PoolId) : ℕ :=
  ((StorageMap.getD s.stakeBasedRewards p default).get s.currentCycle.epoch).targetWeightPerCompute

theorem scaled_le_of_scoreLimitOf {target bounded metric limit w : ℕ}
    (h : scoreLimitOf target bounded = .ok limit) (hm : bounded ≤ metric) (hw : w ≤ limit) :
    w * perTokenDecimals * fixedU128Decimals < 2 ^ 256 ∧
      w * perTokenDecimals * fixedU128Decimals ≤ metric * target := by
  simp only [scoreLimitOf, ok_iff, checkedMul_eq_some, checkedDiv_eq_some] at h
  obtain ⟨_, ⟨rfl, hb⟩, _, ⟨hf, rfl⟩, hp, rfl⟩ := h
  have hs := (Nat.le_div_iff_mul_le (Nat.pos_of_ne_zero hp)).mp hw
  have hs := (Nat.le_div_iff_mul_le (Nat.pos_of_ne_zero hf)).mp hs
  refine ⟨hs.trans_lt hb, hs.trans ?_⟩
  rw [Nat.mul_comm metric]
  exact Nat.mul_le_mul_left _ hm

theorem overstakedIn_cons {last w : ℕ} {m : ManagerId} {p : PoolId} {metric : Metric}
    {rest : List (PoolId × Metric)} (h : overstakedIn s last m w ((p, metric) :: rest) = .ok false) :
    overstakedIn s last m w rest = .ok false ∧ (targetOf s p = 0 ∨
      w * perTokenDecimals * fixedU128Decimals < 2 ^ 256 ∧
        w * perTokenDecimals * fixedU128Decimals ≤ metric * targetOf s p) := by
  rw [overstakedIn, ← targetOf] at h
  split_ifs at h with ht
  · exact ⟨h, .inl ht⟩
  · obtain ⟨limit, hl, h⟩ := bind_eq_ok.mp h
    split_ifs at h with ho
    · cases h
    · refine ⟨h, .inr (scaled_le_of_scoreLimitOf hl ?_ (not_lt.mp ho))⟩
      split_ifs with hm
      · exact hm.le
      · exact le_rfl

theorem checkMetricRatios_of_overstakedIn {last w w' : ℕ} {m : ManagerId}
    {committed : List (PoolId × Metric)} (hw : w' ≤ w) (hn : ∀ entry ∈ committed, entry.2 ≠ 0)
    (h : overstakedIn s last m w committed = .ok false) : checkMetricRatios s w' committed = .ok () := by
  induction committed with
  | nil => rfl
  | cons entry rest ih =>
    obtain ⟨p, metric⟩ := entry
    obtain ⟨hr, hp⟩ := overstakedIn_cons h
    have hok := ih (fun entry he => hn entry (List.mem_cons_of_mem _ he)) hr
    have hm : metric ≠ 0 := hn (p, metric) List.mem_cons_self
    rw [checkMetricRatios]
    split
    · exact hok
    · simp only [ok_iff, exists_const]
      refine ⟨hm, ?_⟩
      split_ifs with ht
      · exact hok
      · obtain ⟨hb, hl⟩ := hp.resolve_left ht
        have hs : w' * perTokenDecimals * fixedU128Decimals ≤
            w * perTokenDecimals * fixedU128Decimals :=
          Nat.mul_le_mul_right _ (Nat.mul_le_mul_right _ hw)
        simp only [ok_iff, checkedMul_eq_some, checkedDiv_eq_some]
        refine ⟨_, ⟨rfl, ?_⟩, _, ⟨rfl, hs.trans_lt hb⟩, _, ⟨hm, rfl⟩, (), ?_, hok⟩
        · exact (Nat.le_mul_of_pos_right _ (by decide)).trans_lt (hs.trans_lt hb)
        · exact Nat.div_le_of_le_mul (hs.trans hl)

theorem MemoryBuffer.getLatest_of_get {V : Type*} {m : MemoryBuffer ℕ V} {t : ℕ} {v : V}
    (ho : ∀ past ∈ m.past, past.1 < m.current.1) (h : m.get t = some v) : m.getLatest t = some v := by
  unfold get at h
  unfold getLatest
  split_ifs at h with ht
  · rw [if_pos ht.ge, h]
  · split at h
    · next start value hp =>
      have hl := ho _ hp
      split_ifs at h with hs
      rw [if_neg (by omega), if_pos (by omega), h]
    · cases h

/-- The check of the ratio of stake and metrics accepts every commitment that is not overstaked: it
divides the other way round, for at most the same weight and at least the same metric. -/
theorem overstake_checks_agree {cm : Commitment} (hc : s.commitments.lookup c = some cm)
    (hordered : ∀ past ∈ cm.weights.past, past.1 < cm.weights.current.1)
    (hmetrics : ∀ entry ∈ iterPrefix s.computeCommitments c, entry.2 ≠ 0)
    (h : isCommitmentOverstaked s c cm = .ok false) : validateMaxStakeMetricRatio s c = .ok () := by
  simp only [isCommitmentOverstaked, ok_iff] at h
  obtain ⟨last, -, m, -, h⟩ := h
  simp only [validateMaxStakeMetricRatio, ok_iff]
  refine ⟨cm, hc, checkMetricRatios_of_overstakedIn ?_ hmetrics h⟩
  cases hg : cm.weights.get s.currentCycle.epoch with
  | none => exact Nat.zero_le _
  | some weights => rw [MemoryBuffer.getLatest_of_get hordered hg]

theorem overstake_checks_agree_opening : ∃ cm,
    (after opening).commitments.lookup 0 = some cm ∧
      isCommitmentOverstaked (after opening) 0 cm = .ok false ∧
      validateMaxStakeMetricRatio (after opening) 0 = .ok () := by
  obtain ⟨cm, hc⟩ := Option.isSome_iff_exists.mp (show ((run step (State.genesis mock [])
    opening).commitments.lookup 0).isSome = true by decide +kernel)
  have ho : ∀ cm ∈ (after opening).commitments.lookup 0,
      (∀ past ∈ cm.weights.past, past.1 < cm.weights.current.1) ∧ (isCommitmentOverstaked
        (after opening) 0 cm).toOption = some false := by
    decide +kernel
  have hf := toOption_eq_some.mp (ho cm hc).2
  exact ⟨cm, hc, hf, overstake_checks_agree hc (ho cm hc).1 (by decide +kernel) hf⟩

variable [DecidableEq A] {who : A}

theorem delegateFor_notOverstaked {x period : ℕ} {auto : Bool}
    (h : delegateFor s who c x period auto = .ok s') : NotOverstaked s' c := by
  simp only [delegateFor, checkJoined, ok_iff] at h
  obtain ⟨cm, -, s₁, -, _, -, _, -, _, -, -, -, _, -, _, -, cm', -, s₂, -, total, -, -,
    ⟨ratio, -, -, -, overstaked, hc, hf⟩, rfl⟩ := h
  rw [hf] at hc
  exact notOverstaked_insert hc rfl rfl rfl rfl rfl rfl

variable {auto : Option Bool} {extra : ℕ} {period : Option ℕ} {b b' : Terms A}
  {commission rate : Option Perbill}

theorem delegateMoreFor_notOverstaked (h : delegateMoreFor s who c extra period auto = .ok s') :
    NotOverstaked s' c := by
  simp only [delegateMoreFor, ok_iff, Prod.exists] at h
  obtain ⟨d, -, -, -, cm, -, st, -, -, -, x, -, -, -, s₁, r, -, s₂, -, hd⟩ := h
  exact delegateFor_notOverstaked hd

def Weighed (T : Config A) (b : Terms A) : Prop :=
  ∀ c cm stake, b.commitments.lookup c = some cm → cm.stake = some stake →
    Weighs T cm stake

omit [DecidableEq A] in
theorem Weighed.insert {cm' : Commitment} (hb : Weighed T b)
    (ho : b'.commitments = b.commitments.insert c cm')
    (hn : ∀ st, cm'.stake = some st → Weighs T cm' st) : Weighed T b' := by
  intro c' cm st hc hs
  rw [ho] at hc
  rcases of_lookup_insert hc with ⟨-, rfl⟩ | ⟨-, hc⟩
  · exact hn st hs
  · exact hb c' cm st hc hs

theorem Amends.weighed {allow : Clause → Prop} (h : Amends T allow b b') (hb : Weighed T b) :
    Weighed T b' := by
  cases h with
  | tick | tend | leave | join => exact hb
  | agree hf ha =>
    refine hb.insert rfl fun stake' ht' => ?_
    obtain ⟨stake, ht, hte⟩ := ha.stake_of_some ht'
    simp only [Stake.terms, Prod.mk.injEq] at hte
    obtain ⟨-, hre, -, hp, hst⟩ := hte
    have hw := hb _ _ stake hf ht
    constructor
    · rw [hre, hp, ha.selfWeight]
      exact hw.selfWeight
    · rw [hst, ha.slashWeight, ha.selfWeight]
      exact hw.slashWeight
  | restate hf hs hs' hr rate hw =>
    refine hb.insert rfl fun stake ht => ?_
    obtain rfl := Option.mem_unique hs' ht
    exact hw
  | lowerCommission hf =>
    refine hb.insert rfl fun stake ht => ?_
    have hwe := hb _ _ stake hf ht
    exact ⟨hwe.selfWeight, hwe.slashWeight⟩
  | raiseCommission hf =>
    refine hb.insert rfl fun stake ht => ?_
    have hwe := hb _ _ stake hf ht
    exact ⟨hwe.selfWeight, hwe.slashWeight⟩
  | stake free hs min max hw =>
    refine hb.insert rfl fun stake ht => ?_
    obtain rfl := Option.mem_unique hs ht
    exact hw
  | unstake hf hs hu =>
    refine hb.insert rfl fun stake ht => ?_
    rw [hu] at ht
    cases ht

theorem run_weighed (w : T.World) (ops : List (Op T)) :
    Weighed T (reached w ops).terms := by
  have hk : ∀ (s : State T) op, Weighed T s.terms → Weighed T (step s op).terms := by
    intro s op hs
    have hp : Permits (fun _ => True) s op := ⟨fun _ _ => trivial, fun _ _ => trivial⟩
    exact Amendments.invariant (fun b b' h hb => h.weighed hb) (step_terms s op hp) hs
  refine run_invariant' hk ops ?_
  intro c cm st hc
  simp [State.genesis, State.terms] at hc

def RaisesAmount (s : State T) (c : CommitmentId) : Call A → Prop
  | .stakeMore extraAmount period _ _ _ => extraAmount ≠ 0 ∨ ∀ p ∈ period,
    ∀ cm ∈ s.commitments.lookup c, ∀ stake ∈ cm.stake, p ≤ stake.cooldownPeriod
  | _ => True

theorem MemoryBuffer.getLatest_of_mutate {V : Type*} {m m' : MemoryBuffer ℕ V} {t : ℕ} {f : V → V}
    (h : m.mutate t f = some m') :
    m'.getLatest t = some (f m.current.2) ∧ m.getLatest t = some m.current.2 := by
  unfold mutate at h
  split_ifs at h with ht hq
  · obtain rfl := Option.some.inj h
    have hl : m.current.1 ≤ t := hq.ge
    exact ⟨if_pos hl, if_pos hl⟩
  · obtain rfl := Option.some.inj h
    exact ⟨if_pos le_rfl, if_pos (Nat.le_of_not_lt ht)⟩

theorem stakeMoreFor_notOverstaked (h : stakeMoreFor s who extra period rate auto = .ok s')
    (hc : T.commitmentIdFor s.world who = some c) (hx : extra ≠ 0) : NotOverstaked s' c := by
  simp only [stakeMoreFor, checkStakedMore, ok_iff, Prod.exists] at h
  obtain ⟨c', hc', cm, -, s₁, cm₁, -, st, -, -, -, s₂, stake₂, -, -, -, w, -, weights, -, s₃,
    -, ⟨⟩, hh, rfl⟩ := h
  obtain rfl := Option.mem_unique hc hc'
  rw [if_pos (.inl hx)] at hh
  simp only [ok_iff] at hh
  obtain ⟨overstaked, hh, hf⟩ := hh
  rw [hf] at hh
  exact notOverstaked_insert hh rfl rfl rfl rfl rfl rfl

theorem stakeMoreFor_totalWeight (h : stakeMoreFor s who 0 period rate auto = .ok s')
    (hc : T.commitmentIdFor s.world who = some c) (hs : Weighed T s.terms)
    (hp : ∀ p ∈ period, ∀ cm ∈ s.commitments.lookup c, ∀ stake ∈ cm.stake,
      p ≤ stake.cooldownPeriod) : totalWeightOf s' c = totalWeightOf s c := by
  simp only [stakeMoreFor, raiseStake, if_true, ok_iff, Prod.exists, Prod.mk.injEq] at h
  obtain ⟨c', hc', cm, hm, s₁, cm₁, hco, stake, ha, -, -, s₂, stake₂, ⟨rfl, rfl⟩, -,
    hl, weight, hw, weights, hwei, s₃, hto, -, -, rfl⟩ := h
  obtain rfl := Option.mem_unique hc hc'
  obtain ⟨-, rfl⟩ := updateTotalStake_add.mp hto
  obtain ⟨last, rate, rfl, rfl, -⟩ :=
    whenSome_changeCommission (fun _ => True) hm hco
  have ht : cm.stake = some stake := ha
  have hsa : period.getD stake.cooldownPeriod = stake.cooldownPeriod := by
    cases period with
    | none => rfl
    | some p => exact le_antisymm (hp p rfl cm hm stake ht) hl
  have hse : weight = cm.selfWeight := by
    have ho := hs c cm stake hm ht
    rw [hsa, ho.selfWeight] at hw
    exact (Except.ok.inj hw).symm
  obtain ⟨hn, hold⟩ := MemoryBuffer.getLatest_of_mutate hwei
  unfold totalWeightOf
  rw [AList.lookup_insert, hm, Option.elim_some, Option.elim_some]
  rw [hn, hold, Option.getD_some, Option.getD_some, hse]
  rfl

def increasedId (s : State T) (who : A) : Call A → Option CommitmentId
  | .stakeMore _ _ _ _ _ => T.commitmentIdFor s.world who
  | .delegate committer _ _ _ => T.commitmentIdFor s.world committer
  | .delegateMore committer _ _ _ => T.commitmentIdFor s.world committer
  | _ => none

theorem not_overstaked_of_increase (w : T.World) (ops : List (Op T)) (who : A) (call : Call A)
    (s' : State T) (c : CommitmentId)
    (hcall : dispatch (reached w ops) (.signed who) call = .ok s')
    (hc : increasedId (reached w ops) who call = some c)
    (hraises : RaisesAmount (reached w ops) c call)
    (hgrows : totalWeightOf (reached w ops) c < totalWeightOf s' c) :
    NotOverstaked s' c := by
  have hs := run_weighed w ops
  generalize reached w ops = s at hcall hc hraises hgrows hs
  cases call with
  | stakeMore extra period commitment commission auto =>
    simp only [dispatch, dispatchSigned, stakeMore, ok_iff, whenSome_eq_ok] at hcall
    obtain ⟨c', -, s₁, ht, s₂, ha, -, -, rfl⟩ := hcall
    have ho : ∃ computeCommitments, s₁ = { s with computeCommitments } := by
      rcases ht with ⟨-, rfl⟩ | ⟨list, -, ht⟩
      · exact ⟨_, rfl⟩
      · exact (validateMaxMetricStoreCommitments_ok ht).1
    obtain ⟨stored, rfl⟩ := ho
    by_cases hx : extra = 0
    · subst hx
      have hsa := stakeMoreFor_totalWeight ha hc hs (hraises.resolve_left fun h => h rfl)
      exact absurd hgrows (hsa ▸ lt_irrefl _)
    · exact stakeMoreFor_notOverstaked ha hc hx
  | delegate committer amount period auto =>
    simp only [dispatch, dispatchSigned, delegate, ok_iff] at hcall
    obtain ⟨c', hc', s₁, hd, -, -, rfl⟩ := hcall
    obtain rfl := Option.mem_unique hc hc'
    exact delegateFor_notOverstaked hd
  | delegateMore committer extra period auto =>
    simp only [dispatch, dispatchSigned, delegateMore, ok_iff] at hcall
    obtain ⟨c', hc', s₁, hd, -, -, rfl⟩ := hcall
    obtain rfl := Option.mem_unique hc hc'
    exact delegateMoreFor_notOverstaked hd
  | _ => cases hc

def raiseCall : Call ℕ := .stakeMore unit none none none none

theorem not_overstaked_of_raiseCall :
    NotOverstaked (step (after opening) (signed 2 raiseCall)) 0 := by
  have ho : (dispatch (after opening) (.signed 2) raiseCall).isOk = true := by
    decide +kernel
  have hc : increasedId (after opening) 2 raiseCall = some 0 := by
    decide +kernel
  have hr : RaisesAmount (after opening) 0 raiseCall :=
    .inl (by decide)
  have hg : totalWeightOf (after opening) 0 <
      totalWeightOf (step (after opening) (signed 2 raiseCall)) 0 := by
    decide +kernel
  exact not_overstaked_of_increase (T := mock) [] opening 2 raiseCall _ 0 (dispatch_eq_step ho) hc
    hr hg

def measuredLess : List (Op mock) :=
  opening ++ [.heartbeat 3 1 1 [(1, 1, 10 ^ 9)], .heartbeat 9 8 2 [(1, 10, 1)], .block]

def lengthenCall : Call ℕ := .stakeMore 0 (some 108) none none none

/-- A longer period raises the weight of a commitment that is overstaked. -/
theorem overstaked_of_lengthenCall :
    (dispatch (after measuredLess) (.signed 2) lengthenCall).isOk = true ∧
    totalWeightOf (after measuredLess) 0 = 19999999999999 ∧
    totalWeightOf (step (after measuredLess) (signed 2 lengthenCall)) 0 =
      26666666666666 ∧
    ((step (after measuredLess)
      (signed 2 lengthenCall)).commitments.lookup 0).map (fun cm => (isCommitmentOverstaked
        (step (after measuredLess) (signed 2 lengthenCall)) 0 cm).toOption) =
      some (some true) := by
  decide +kernel

end Acurast.Compute
