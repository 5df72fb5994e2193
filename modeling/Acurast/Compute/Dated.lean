import Acurast.Compute.StepPostings

/-! The times of stakes and delegations. With a cooldown of at least one block every delegation is older
than the next stake of its commitment. -/

namespace Acurast.Compute

open Base

variable {A : Type} [DecidableEq A] {T : Config A} {allow : Notable A → Prop} {s s' : State T}

structure StakeDated (T : Config A) (delegations : StorageMap (A × CommitmentId) Delegation)
    (block : ℕ) (c : CommitmentId) (stake : Stake) : Prop where
  created : stake.created ≤ block
  cooldownPeriod : T.minCooldownPeriod ≤ stake.cooldownPeriod
  cooldownStarted : ∀ start ∈ stake.cooldownStarted, stake.created ≤ start ∧ start ≤ block ∧
    ∀ who d, delegations.lookup (who, c) = some d → d.stake.created ≤ start

structure Dated (s : State T) : Prop where
  delegation : ∀ k d, s.delegations.lookup k = some d → d.stake.created ≤ s.blockNumber
  stake : ∀ c cm stake, s.commitments.lookup c = some cm → cm.stake = some stake →
    StakeDated T s.delegations s.blockNumber c stake
  aged : Aged s

theorem genesis_dated (T : Config A) (w : T.World) : Dated (State.genesis T w) := by
  refine ⟨?_, ?_, ?_⟩
  · intro k d hd
    simp [State.genesis] at hd
  · intro c cm stake hc
    simp [State.genesis] at hc
  · intro k d hd
    simp [State.genesis] at hd

theorem Posting.block_le (h : Posting allow s s') : s.blockNumber ≤ s'.blockNumber := by
  cases h with
  | rest hl => exact hl.blockNumber
  | _ => exact le_rfl

theorem Postings.block_le (h : Postings allow s s') : s.blockNumber ≤ s'.blockNumber := by
  induction h with
  | refl => exact le_rfl
  | tail _ hl ih => exact ih.trans hl.block_le

def NoNewer (delegations delegations' : StorageMap (A × CommitmentId) Delegation) : Prop :=
  ∀ k d', delegations'.lookup k = some d' → ∃ d, delegations.lookup k = some d ∧
    d.stake.created = d'.stake.created

variable {d : Delegation} {k : A × CommitmentId}
  {m delegations : StorageMap (A × CommitmentId) Delegation} {block : ℕ} {c : CommitmentId}
  {stake stake' st' : Stake} {cm cm' : Commitment}

theorem NoNewer.insert {d' : Delegation} (hd : m.lookup k = some d)
    (hc : d'.stake.created = d.stake.created) : NoNewer m (m.insert k d') := by
  intro j e he
  rcases of_lookup_insert he with ⟨hj, rfl⟩ | ⟨hj, he⟩
  · exact ⟨d, hj ▸ hd, hc.symm⟩
  · exact ⟨e, he, rfl⟩

theorem NoNewer.erase : NoNewer m (m.erase k) := by
  intro j e he
  exact ⟨e, (of_lookup_erase he).2, rfl⟩

theorem StakeDated.mono {delegations' : StorageMap (A × CommitmentId) Delegation} {block' : ℕ}
    (h : StakeDated T delegations block c stake) (hde : NoNewer delegations delegations')
    (hb : block ≤ block') : StakeDated T delegations' block' c stake := by
  refine ⟨h.created.trans hb, h.cooldownPeriod, fun start hs => ?_⟩
  obtain ⟨ha, hl, hold⟩ := h.cooldownStarted start hs
  refine ⟨ha, hl.trans hb, fun who d' hd' => ?_⟩
  obtain ⟨d, hd, hc⟩ := hde _ d' hd'
  exact hc ▸ hold who d hd

theorem StakeDated.start_lt {start : ℕ} (h : StakeDated T delegations block c stake)
    (hm : 0 < T.minCooldownPeriod) (hn : saturatingAdd 32 start stake.cooldownPeriod ≤ block)
    (hl : block < 2 ^ 32 - 1) : start < block := by
  have hp := h.cooldownPeriod
  simp only [saturatingAdd, maxOf] at hn
  omega

def StakesKept (s s' : State T) : Prop := ∀ c,
  (s'.commitments.lookup c).bind (·.stake) = (s.commitments.lookup c).bind (·.stake)

omit [DecidableEq A] in
theorem StakesKept.insert (hm : s.commitments.lookup c = some cm)
    (hc : s'.commitments = s.commitments.insert c cm') (hs : cm'.stake = cm.stake) :
    StakesKept s s' := by
  intro c'
  rw [hc, lookup_insert_eq]
  split_ifs with hq
  · rw [hq, hm, Option.bind_some, Option.bind_some, hs]
  · rfl

theorem Dated.of_kept (hs : Dated s) (hde : NoNewer s.delegations s'.delegations)
    (ht : StakesKept s s') (hb : s.blockNumber ≤ s'.blockNumber) : Dated s' := by
  refine ⟨fun k d' hd' => ?_, fun c cm' stake hc' hst => ?_, fun k d' hd' hn => ?_⟩
  · obtain ⟨d, hd, hc⟩ := hde k d' hd'
    exact hc ▸ (hs.delegation k d hd).trans hb
  · have hk := ht c
    rw [hc', Option.bind_some, hst] at hk
    obtain ⟨cm, hm, hst⟩ := Option.bind_eq_some_iff.mp hk.symm
    exact (hs.stake c cm stake hm hst).mono hde hb
  · obtain ⟨d, hd, hc⟩ := hde k d' hd'
    rw [ht k.2] at hn
    exact hc ▸ (hs.aged k d hd hn).trans_le hb

theorem Dated.of_commitment (hs : Dated s)
    (hc : s'.commitments = s.commitments.insert c cm')
    (hde : s'.delegations = s.delegations) (hb : s'.blockNumber = s.blockNumber)
    (ht : ∀ stake ∈ cm'.stake, StakeDated T s.delegations s.blockNumber c stake)
    (ha : cm'.stake = none → ∀ who d, s.delegations.lookup (who, c) = some d →
      d.stake.created < s.blockNumber) : Dated s' := by
  refine ⟨?_, fun c' cm'' stake hc' hs' => ?_, fun k d hd hn => ?_⟩
  · rw [hde, hb]
    exact hs.delegation
  · rw [hde, hb]
    rw [hc] at hc'
    rcases of_lookup_insert hc' with ⟨hq, rfl⟩ | ⟨hq, hc'⟩
    · exact hq ▸ ht stake hs'
    · exact hs.stake c' cm'' stake hc' hs'
  · rw [hde] at hd
    rw [hc, lookup_insert_eq] at hn
    rw [hb]
    split_ifs at hn with hq
    · obtain ⟨who, c'⟩ := k
      subst hq
      exact ha hn who d hd
    · exact hs.aged k d hd hn

theorem Keeps.stakeDated (h : Keeps s.blockNumber stake stake' cm cm') (hs : Dated s)
    (hc : s.commitments.lookup c = some cm) :
    StakeDated T s.delegations s.blockNumber c stake' := by
  have ha := hs.stake c cm stake hc h.staked
  refine ⟨h.created ▸ ha.created, ha.cooldownPeriod.trans h.cooldownPeriod, ?_⟩
  rcases h.cooldownStarted with hsa | ⟨-, hst⟩
  · rw [hsa, h.created]
    exact ha.cooldownStarted
  · intro start ht
    obtain rfl := Option.mem_unique hst ht
    exact ⟨h.created ▸ ha.created, le_rfl, fun who d hd => hs.delegation _ d hd⟩

theorem Dated.of_keeps (hs : Dated s) (hc : s.commitments.lookup c = some cm)
    (hk : Keeps s.blockNumber stake st' cm cm')
    (ho : s'.commitments = s.commitments.insert c cm')
    (hd : s'.delegations = s.delegations) (hb : s'.blockNumber = s.blockNumber) :
    Dated s' := by
  refine hs.of_commitment ho hd hb (fun st ht => ?_) fun hn => ?_
  · obtain rfl := Option.mem_unique hk.staked' ht
    exact hk.stakeDated hs hc
  · rw [hk.staked'] at hn
    cases hn

theorem Dated.of_join {who : A} (hs : Dated s) (hc : s.commitments.lookup c = some cm)
    (ht : cm.stake = some stake) (hac : stake.cooldownStarted = none)
    (hr : d.stake.created = s.blockNumber) (ha : StakesKept s s')
    (hd : s'.delegations = s.delegations.insert (who, c) d)
    (hb : s'.blockNumber = s.blockNumber) : Dated s' := by
  refine ⟨fun k d' hd' => ?_, fun c' cm' st' hc' hs' => ?_, fun k d' hd' hn => ?_⟩
  · rw [hd, lookup_insert_eq] at hd'
    rw [hb]
    split_ifs at hd'
    · obtain rfl := Option.some.inj hd'
      exact hr.le
    · exact hs.delegation k d' hd'
  · have hk := ha c'
    rw [hc', Option.bind_some, hs'] at hk
    obtain ⟨cm₀, hc₀, hs₀⟩ := Option.bind_eq_some_iff.mp hk.symm
    have hda := hs.stake c' cm₀ st' hc₀ hs₀
    refine ⟨hb ▸ hda.created, hda.cooldownPeriod, fun start hst => ?_⟩
    obtain ⟨hf, hl, hold⟩ := hda.cooldownStarted start hst
    refine ⟨hf, hb ▸ hl, fun who' d' hd' => ?_⟩
    rw [hd, lookup_insert_eq] at hd'
    split_ifs at hd' with hq
    · -- the commitment that was joined is not in cooldown
      obtain ⟨-, rfl⟩ := Prod.mk.inj hq
      obtain rfl := Option.mem_unique hc hc₀
      obtain rfl := Option.mem_unique ht hs₀
      rw [hac] at hst
      cases hst
    · exact hold who' d' hd'
  · rw [ha k.2] at hn
    rw [hd, lookup_insert_eq] at hd'
    rw [hb]
    split_ifs at hd' with hq
    · rw [hq, hc, Option.bind_some, ht] at hn
      cases hn
    · exact hs.aged k d' hd' hn

theorem Posting.dated (h : Posting allow s s') (hm : 0 < T.minCooldownPeriod)
    (hla : s'.blockNumber < 2 ^ 32 - 1) (hs : Dated s) : Dated s' := by
  have hsa : NoNewer s.delegations s.delegations := fun k d hd => ⟨d, hd, rfl⟩
  cases h with
  | rest hl =>
    refine hs.of_kept ?_ (fun c => ?_) hl.blockNumber
    · rw [hl.delegations]
      exact hsa
    · rw [hl.commitments]
  | outside | create => exact hs.of_kept hsa (fun c => rfl) le_rfl
  | idle hf hu => exact hs.of_kept hsa (.insert hf rfl rfl) le_rfl
  | keep hf hk => exact hs.of_keeps hf hk rfl rfl rfl
  | restake hf hk => exact hs.of_keeps hf hk rfl rfl rfl
  | @stake who c cm stake stakes hcre ht hc ho =>
    refine hs.of_commitment rfl rfl rfl (fun st hst => ?_) fun hn => ?_
    · obtain rfl := Option.mem_unique stakes.stake_eq hst
      refine ⟨hcre.le, ho, fun start hsta => ?_⟩
      rw [hc] at hsta
      cases hsta
    · rw [stakes.stake_eq] at hn
      cases hn
  | @unstake who c cm cm' stake start hf staked hu hp started hen =>
    refine hs.of_commitment rfl rfl rfl (fun st hst => ?_) fun _ who d hd => ?_
    · rw [hu] at hst
      cases hst
    · -- the cooldown took at least a block, and began after the last delegation
      have hda := hs.stake c cm stake hf staked
      have hcr := (hda.cooldownStarted start started).2.2 who d hd
      have hsta := hda.start_lt hm hen hla
      omega
  | settle hde hse =>
    exact hs.of_kept (.insert hde hse.created) (fun c => rfl) le_rfl
  | lower hf hde hr same =>
    exact hs.of_kept (.insert hde hr.created) (.insert hf rfl same.stake) le_rfl
  | cool hf hde hr same =>
    exact hs.of_kept (.insert hde hr.created) (.insert hf rfl same.stake) le_rfl
  | leave hf hde same => exact hs.of_kept .erase (.insert hf rfl same.stake) le_rfl
  | join hf staked ha free hcre hre hset same =>
    exact hs.of_join hf staked ha hcre (.insert hf rfl same.stake) rfl rfl

theorem Postings.dated (h : Postings allow s s') (hm : 0 < T.minCooldownPeriod)
    (hl : s'.blockNumber < 2 ^ 32 - 1) (hs : Dated s) : Dated s' := by
  induction h with
  | refl => exact hs
  | tail _ hp ih =>
    exact hp.dated hm hl (ih (Nat.lt_of_le_of_lt hp.block_le hl))

end Acurast.Compute
