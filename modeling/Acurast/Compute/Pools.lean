import Acurast.Compute.Dated
import Acurast.Compute.Sides

/-! The indices a delegation is accrued at. The current entry of a commitment's buffer belongs to the
last stake, and a delegation goes on reading the same entry, which only rises, until it is forgotten. -/

namespace Acurast.Compute

open Base

variable {A : Type} [DecidableEq A] {T : Config A} {allow : Notable A → Prop} {s s' : State T}

structure PoolDated (block : ℕ) (cm : Commitment) : Prop where
  staked : ∀ stake, cm.stake = some stake → cm.poolRewards.current.1 = stake.created
  unstaked : cm.stake = none → cm.poolRewards.current.1 < block
  past : ∀ e ∈ cm.poolRewards.past, e.1 < cm.poolRewards.current.1
  bounded : cm.poolRewards.current.2.slashPerWeight ≤ maxOf 256

def Pooled (s : State T) : Prop :=
  ∀ c cm, s.commitments.lookup c = some cm → PoolDated s.blockNumber cm

omit [DecidableEq A] in
theorem Pooled.poolsCurrent (hs : Pooled s) : PoolsCurrent s :=
  fun c cm stake hc ht => (hs c cm hc).staked stake ht

omit [DecidableEq A] in
theorem genesis_pooled (T : Config A) (w : T.World) : Pooled (State.genesis T w) := by
  intro c cm hc
  simp [State.genesis] at hc

variable {block : ℕ} {cm cm' : Commitment} {c : CommitmentId} {stake st' : Stake}
  {d d' : Delegation} {k : A × CommitmentId}

omit [DecidableEq A] in
theorem PoolDated.mono {block' : ℕ} (h : PoolDated block cm) (hb : block ≤ block') :
    PoolDated block' cm :=
  ⟨h.staked, fun hn => (h.unstaked hn).trans_le hb, h.past, h.bounded⟩

omit [DecidableEq A] in
theorem Pooled.insert (hs : Pooled s) (hc : s'.commitments = s.commitments.insert c cm')
    (hb : s'.blockNumber = s.blockNumber) (hn : PoolDated s.blockNumber cm') : Pooled s' := by
  intro c' cm hm
  rw [hc, lookup_insert_eq] at hm
  rw [hb]
  split_ifs at hm
  · obtain rfl := Option.some.inj hm
    exact hn
  · exact hs c' cm hm

omit [DecidableEq A] in
theorem PoolDated.of_sameStake (h : PoolDated block cm) (hs : SameStake cm cm') :
    PoolDated block cm' := by
  refine ⟨?_, ?_, ?_, ?_⟩
  · rw [hs.stake, hs.poolRewards]
    exact h.staked
  · rw [hs.stake, hs.poolRewards]
    exact h.unstaked
  · rw [hs.poolRewards]
    exact h.past
  · rw [hs.poolRewards]
    exact h.bounded

theorem MemoryBuffer.mutate_current {V : Type*} {b b' : MemoryBuffer ℕ V} {t : ℕ} {f : V → V}
    (h : b.mutate t f = some b') (ht : b.current.1 = t) :
    b'.current = (t, f b.current.2) ∧ b'.past = b.past := by
  subst ht
  rw [mutate, if_neg (lt_irrefl _), if_pos rfl, Option.some.injEq] at h
  rw [← h]
  exact ⟨rfl, rfl⟩

omit [DecidableEq A] in
theorem Keeps.poolDated (h : Keeps block stake st' cm cm') (hs : PoolDated block cm) :
    PoolDated block cm' := by
  have hc := hs.staked stake h.staked
  have ha : ∀ st, cm'.stake = some st → st.created = stake.created := by
    intro st ht
    obtain rfl := Option.mem_unique h.staked' ht
    exact h.created
  have hu : cm'.stake ≠ none := by simp [h.staked']
  rcases h.poolRewards with hsa | ⟨f, hf, hm⟩
  · refine ⟨fun st ht => ?_, fun hn => absurd hn hu, ?_, ?_⟩
    · rw [hsa, hc, ha st ht]
    · rw [hsa]
      exact hs.past
    · rw [hsa]
      exact hs.bounded
  · obtain ⟨hc', hp⟩ := MemoryBuffer.mutate_current hm hc
    refine ⟨fun st ht => ?_, fun hn => absurd hn hu, ?_, ?_⟩
    · rw [hc', ha st ht]
    · rw [hp, hc', ← hc]
      exact hs.past
    · rw [hc']
      exact (hf _ hs.bounded).2

theorem openPoolRewards_cases {old : Option Commitment} {created : ℕ} {b : MemoryBuffer ℕ PoolReward}
    (h : openPoolRewards old created = .ok b)
    (hold : ∀ cm ∈ old, cm.poolRewards.current.1 < created) :
    b = ⟨old.map (·.poolRewards.current), created, default⟩ := by
  unfold openPoolRewards at h
  split at h
  · next cm =>
    have hl := hold cm rfl
    rw [okOr_eq_ok, MemoryBuffer.set, if_neg hl.le.not_gt, if_neg hl.ne', Option.some.injEq] at h
    rw [← h, Option.map_some]
  · cases h
    rfl

omit [DecidableEq A] in
theorem Stakes.shelved (h : Stakes (s.commitments.lookup c) cm stake)
    (hc : stake.created = s.blockNumber) (hs : Pooled s) : cm.poolRewards =
      ⟨(s.commitments.lookup c).map (·.poolRewards.current), s.blockNumber, default⟩ := by
  rw [← hc]
  refine openPoolRewards_cases h.poolRewards fun old hold => ?_
  have hu := h.unstaked
  rw [hold, Option.bind_some] at hu
  rw [hc]
  exact (hs c old hold).unstaked hu

theorem Posting.pooled (h : Posting allow s s') (hmi : 0 < T.minCooldownPeriod)
    (hla : s'.blockNumber < 2 ^ 32 - 1) (hda : Dated s) (hs : Pooled s) : Pooled s' := by
  cases h with
  | rest hl =>
    intro c cm hm
    rw [hl.commitments] at hm
    exact (hs c cm hm).mono hl.blockNumber
  | outside | create | settle => exact hs
  | idle hf hu => exact hs.insert rfl rfl ((hs _ _ hf).of_sameStake ⟨rfl, rfl⟩)
  | keep hf hk => exact hs.insert rfl rfl (hk.poolDated (hs _ _ hf))
  | restake hf hk => exact hs.insert rfl rfl (hk.poolDated (hs _ _ hf))
  | @stake who c cm stake stakes hc =>
    have hh := stakes.shelved hc hs
    refine hs.insert rfl rfl ⟨fun st ht => ?_, fun hn => ?_, fun e he => ?_, ?_⟩
    · obtain rfl := Option.mem_unique stakes.stake_eq ht
      rw [hh, hc]
    · rw [stakes.stake_eq] at hn
      cases hn
    · rw [hh] at he ⊢
      obtain ⟨old, hold, rfl⟩ := Option.map_eq_some_iff.mp he
      have hun := stakes.unstaked
      rw [hold, Option.bind_some] at hun
      exact (hs c old hold).unstaked hun
    · rw [hh]
      exact Nat.zero_le _
  | @unstake who c cm cm' stake start hf staked hu hp started hen =>
    have ho := hs c cm hf
    have hsta := hda.stake c cm stake hf staked
    refine hs.insert rfl rfl ⟨fun st ht => ?_, fun _ => ?_, ?_, ?_⟩
    · rw [hu] at ht
      cases ht
    · rw [hp, ho.staked stake staked]
      exact Nat.lt_of_le_of_lt (hsta.cooldownStarted start started).1 (hsta.start_lt hmi hen hla)
    · rw [hp]
      exact ho.past
    · rw [hp]
      exact ho.bounded
  | lower hf hd hr same =>
    exact hs.insert rfl rfl ((hs _ _ hf).of_sameStake same)
  | cool hf hd hr same =>
    exact hs.insert rfl rfl ((hs _ _ hf).of_sameStake same)
  | leave hf hd same => exact hs.insert rfl rfl ((hs _ _ hf).of_sameStake same)
  | join hf staked ha free hc hre hse same =>
    exact hs.insert rfl rfl ((hs _ _ hf).of_sameStake same)

def generation (s : State T) (c : CommitmentId) : Option ℕ :=
  ((s.commitments.lookup c).bind (·.stake)).map (·.created)

/-- How the entry read at a time goes on: it is forgotten, it stays the same, or it is the entry of
the present stake and is raised. -/
def Continues (allow : Notable A → Prop) (s s' : State T) (c : CommitmentId) (time : ℕ) : Prop :=
  ∀ e' ∈ indexAt s' c time, ∃ e ∈ indexAt s c time, e'.1 = e.1 ∧
    e.2.slashPerWeight ≤ e'.2.slashPerWeight ∧
    (e' = e ∨ allow .raise ∧ generation s' c = some e.1)

omit [DecidableEq A] in
theorem Continues.of_eq {time : ℕ} (h : indexAt s' c time = indexAt s c time) :
    Continues allow s s' c time := by
  intro e he
  rw [h] at he
  exact ⟨e, he, rfl, le_rfl, .inl rfl⟩

omit [DecidableEq A] in
theorem Keeps.continues (h : Keeps s.blockNumber stake st' cm cm') (hs : Pooled s)
    (hc : s.commitments.lookup c = some cm)
    (ho : s'.commitments = s.commitments.insert c cm')
    (hra : cm'.poolRewards = cm.poolRewards ∨ allow .raise) (c' : CommitmentId) (time : ℕ) :
    Continues allow s s' c' time := by
  rcases h.poolRewards with ha | ⟨f, hf, hm⟩
  · exact .of_eq (by rw [indexAt_insert hc ho ha])
  rcases hra with ha | hr
  · exact .of_eq (by rw [indexAt_insert hc ho ha])
  have hn := indexAt_mutate hs.poolsCurrent hc h.staked ho hm c' time
  split_ifs at hn with hl
  · obtain ⟨rfl, hle⟩ := hl
    intro e' he'
    rw [hn] at he'
    obtain rfl := Option.some.inj he'
    refine ⟨_, indexAt_current hs.poolsCurrent hc h.staked hle, rfl, (hf _ (hs c' cm hc).bounded).1,
      .inr ⟨hr, ?_⟩⟩
    rw [generation, ho, AList.lookup_insert, Option.bind_some, h.staked', Option.map_some,
      h.created]
  · exact .of_eq hn

theorem Posting.continues {who : A} (h : Posting allow s s') (hb : ¬ allow .sameBlock)
    (hs : Pooled s) (hd : s.delegations.lookup (who, c) = some d) :
    Continues allow s s' c d.stake.created := by
  cases h with
  | rest hl => exact .of_eq (by simp only [indexAt, hl.commitments])
  | outside | create | settle => exact .of_eq rfl
  | @idle c' cm lastScoringEpoch hf hu =>
    have hpo : ({ cm with lastScoringEpoch } : Commitment).poolRewards = cm.poolRewards := rfl
    exact .of_eq (by rw [indexAt_insert hf rfl hpo])
  | keep hf hk x hra => exact hk.continues hs hf rfl hra _ _
  | restake hf hk hp => exact hk.continues hs hf rfl (.inl hp) _ _
  | @stake who' c' cm stake hst hc ht hco hcoo ho =>
    intro e he
    rw [indexAt, lookup_insert_eq] at he
    split_ifs at he with hq
    · -- the delegation is older than the new stake, so at most the shelved entry is left
      subst hq
      have hlt := (ho.resolve_right hb) who d hd
      rw [Option.bind_some, hst.shelved hc hs, MemoryBuffer.latestEntry, if_neg hlt.not_ge] at he
      cases hold : s.commitments.lookup c with
      | none =>
        rw [hold] at he
        cases he
      | some old =>
        simp only [hold, Option.map_some] at he
        split_ifs at he with hh
        · refine ⟨e, ?_, rfl, le_rfl, .inl rfl⟩
          rw [indexAt, hold, Option.bind_some, MemoryBuffer.latestEntry_of_current_le hh.1]
          exact he
        · cases he
    · exact ⟨e, he, rfl, le_rfl, .inl rfl⟩
  | unstake hf hsta hu hp =>
    exact .of_eq (by rw [indexAt_insert hf rfl hp])
  | lower hf hde hr same => exact .of_eq (by rw [indexAt_insert hf rfl same.poolRewards])
  | cool hf hde hr same => exact .of_eq (by rw [indexAt_insert hf rfl same.poolRewards])
  | leave hf hde same => exact .of_eq (by rw [indexAt_insert hf rfl same.poolRewards])
  | join hf hsta ha free hc hre hse same =>
    exact .of_eq (by rw [indexAt_insert hf rfl same.poolRewards])

/-- Where a delegation after a posting comes from: it was there, with the same age, or it was made;
its slash debt goes on, or was recorded anew at the entry it reads. -/
structure Stems (allow : Notable A → Prop) (s s' : State T) (k : A × CommitmentId) (d' : Delegation) :
    Prop where
  origin : (∃ d, s.delegations.lookup k = some d ∧ d'.stake.created = d.stake.created) ∨
    allow (.join k.1 k.2)
  slash : (∃ d, s.delegations.lookup k = some d ∧ d'.stake.created = d.stake.created ∧
      d'.slashWeight = d.slashWeight ∧ d'.slashDebt = d.slashDebt) ∨
    SlashSettled (indexAt s' k.2 d'.stake.created) d'

theorem Stems.of_same (h : s.delegations.lookup k = some d) : Stems allow s s' k d :=
  ⟨.inl ⟨d, h, rfl⟩, .inl ⟨d, h, rfl, rfl, rfl⟩⟩

theorem Stems.of_insert {j : A × CommitmentId} {d'' : Delegation}
    (hd' : s'.delegations.lookup j = some d')
    (hde : s'.delegations = s.delegations.insert k d'')
    (hd : s.delegations.lookup k = some d) (hc : d''.stake.created = d.stake.created)
    (hn : indexAt s' = indexAt s)
    (hs : (d''.slashWeight = d.slashWeight ∧
      d''.slashDebt = d.slashDebt) ∨ SlashSettled (indexAt s k.2 d.stake.created) d'') :
    Stems allow s s' j d' := by
  rw [hde] at hd'
  rcases of_lookup_insert hd' with ⟨hq, rfl⟩ | ⟨hq, hd'⟩
  · subst hq
    refine ⟨.inl ⟨d, hd, hc⟩, ?_⟩
    rcases hs with ⟨hw, hb⟩ | hse
    · exact .inl ⟨d, hd, hc, hw, hb⟩
    · rw [hn, hc]
      exact .inr hse
  · exact .of_same hd'

theorem Posting.stems (h : Posting allow s s') (hd' : s'.delegations.lookup k = some d') :
    Stems allow s s' k d' := by
  cases h with
  | rest hl => exact .of_same (hl.delegations ▸ hd')
  | outside | create | idle | keep | restake | stake | unstake => exact .of_same hd'
  | @settle who c d d'' hd hs =>
    refine .of_insert hd' rfl hd hs.created rfl ?_
    exact hs.slash.imp_left fun hde => ⟨hs.quantity .slashWeight, hde⟩
  | lower hf hd hr same =>
    exact .of_insert hd' rfl hd hr.created (indexAt_insert hf rfl same.poolRewards) hr.slash
  | cool hf hd hr same =>
    exact .of_insert hd' rfl hd hr.created (indexAt_insert hf rfl same.poolRewards) hr.slash
  | leave =>
    exact .of_same (of_lookup_erase hd').2
  | @join who c cm cm' d stake hf staked active free created rewardable settled same totals small
      fits locks joins =>
    rcases of_lookup_insert hd' with ⟨hq, rfl⟩ | ⟨hq, hd'⟩
    · subst hq
      refine ⟨.inr joins, .inr ?_⟩
      rw [indexAt_insert hf rfl same.poolRewards]
      exact settled
    · exact .of_same hd'

def Charged (s : State T) : Prop := ∀ k d, s.delegations.lookup k = some d →
  ∀ e ∈ indexAt s k.2 d.stake.created,
    d.slashDebt ≤ d.slashWeight * e.2.slashPerWeight / perTokenDecimals

theorem genesis_charged (T : Config A) (w : T.World) : Charged (State.genesis T w) := by
  intro k d hd
  simp [State.genesis] at hd

theorem Posting.charged (h : Posting allow s s') (hb : ¬ allow .sameBlock) (hp : Pooled s)
    (hs : Charged s) : Charged s' := by
  rintro ⟨who, c⟩ d' hd' e' he'
  rcases (h.stems hd').slash with ⟨d, hd, hc, hw, hde⟩ | hse
  · rw [hc] at he'
    obtain ⟨e, he, -, hl, -⟩ := h.continues hb hp hd e' he'
    rw [hw, hde]
    exact (hs _ d hd e he).trans (Nat.div_le_div_right (Nat.mul_le_mul_left _ hl))
  · exact (hse e' he').le

structure Priced (s : State T) : Prop where
  dated : Dated s
  pooled : Pooled s
  charged : Charged s

theorem Posting.priced (h : Posting allow s s') (hm : 0 < T.minCooldownPeriod)
    (hl : s'.blockNumber < 2 ^ 32 - 1) (hb : ¬ allow .sameBlock) (hs : Priced s) : Priced s' :=
  ⟨h.dated hm hl hs.dated, h.pooled hm hl hs.dated hs.pooled,
    h.charged hb hs.pooled hs.charged⟩

theorem Postings.priced (h : Postings allow s s') (hm : 0 < T.minCooldownPeriod)
    (hl : s'.blockNumber < 2 ^ 32 - 1) (hb : ¬ allow .sameBlock) (hs : Priced s) :
    Priced s' := by
  induction h with
  | refl => exact hs
  | tail _ hp ih =>
    exact hp.priced hm hl hb (ih (Nat.lt_of_le_of_lt hp.block_le hl))

end Acurast.Compute
