import Acurast.Compute.LiveWeights
import Acurast.Compute.StakeBounds

/-! Delegators are not bound longer than their committer, whose period only grows. A new stake is younger
than what was delegated to the one before it. -/

namespace Acurast.Compute

open Base

variable {A : Type} [DecidableEq A] {T : Config A} {b b' : Terms A} {allow : Clause → Prop}

/-- The age and the period of a delegation, against the stake it is made to. Once the stake has
ended, it is older than any later one, or free at once. -/
structure Subordinate (block : ℕ) (stake : Option Stake) (d : Stake) : Prop where
  made : d.created ≤ block
  shorter : ∀ st ∈ stake, st.created ≤ d.created → d.cooldownPeriod ≤ st.cooldownPeriod
  cooling : ∀ st ∈ stake, ∀ start ∈ st.cooldownStarted, d.created ≤ start
  unstaked : stake = none → d.created < block ∨ d.cooldownPeriod = 0

def StakedBefore (block : ℕ) (stake : Stake) : Prop :=
  stake.created ≤ block ∧ ∀ start ∈ stake.cooldownStarted, start ≤ block

structure Ordered (b : Terms A) : Prop where
  stakes : ∀ c cm stake, b.commitments.lookup c = some cm → cm.stake = some stake →
    StakedBefore b.block stake
  delegations : ∀ who c d, b.delegations.lookup (who, c) = some d →
    Subordinate b.block ((b.commitments.lookup c).bind (·.stake)) d.stake

variable {block : ℕ} {stake' d : Stake}

omit [DecidableEq A] in
theorem StakedBefore.of_terms {st : Stake} (h : StakedBefore block st)
    (ht : stake'.terms = st.terms) : StakedBefore block stake' := by
  simp only [Stake.terms, Prod.mk.injEq] at ht
  obtain ⟨-, -, hc, -, hs⟩ := ht
  unfold StakedBefore
  rw [hc, hs]
  exact h

omit [DecidableEq A] in
theorem Subordinate.of_terms {stake stake' : Option Stake} (h : Subordinate block stake d)
    (ht : stake'.map Stake.terms = stake.map Stake.terms) : Subordinate block stake' d := by
  have hb : ∀ st' ∈ stake', ∃ st ∈ stake, st'.terms = st.terms := by
    intro st' hs'
    rw [Option.mem_def.mp hs', Option.map_some] at ht
    obtain ⟨st, hs, hq⟩ := Option.map_eq_some_iff.mp ht.symm
    exact ⟨st, hs, hq.symm⟩
  refine ⟨h.made, fun st' hs' hl => ?_, fun st' hs' start ha => ?_, fun hn => ?_⟩
  · obtain ⟨st, hs, hq⟩ := hb st' hs'
    simp only [Stake.terms, Prod.mk.injEq] at hq
    obtain ⟨-, -, hc, hp, -⟩ := hq
    rw [hp]
    exact h.shorter st hs (hc ▸ hl)
  · obtain ⟨st, hs, hq⟩ := hb st' hs'
    simp only [Stake.terms, Prod.mk.injEq] at hq
    obtain ⟨-, -, -, -, hsta⟩ := hq
    exact h.cooling st hs start (hsta ▸ ha)
  · rw [hn, Option.map_none, eq_comm, Option.map_eq_none_iff] at ht
    exact h.unstaked ht

omit [DecidableEq A] in
theorem Subordinate.restate {stake : Stake} (h : Subordinate block (some stake) d)
    (hr : Restates T allow block stake stake') : Subordinate block (some stake') d := by
  refine ⟨h.made, fun st hs hl => ?_, fun st hs start ht => ?_, fun hn => by cases hn⟩
  · obtain rfl := Option.some.inj hs
    rw [hr.created] at hl
    have hh := h.shorter stake rfl hl
    rcases hr.cooldownPeriod with ha | ⟨ho, -⟩
    · exact ha ▸ hh
    · exact hh.trans ho
  · obtain rfl := Option.some.inj hs
    rcases hr.cooldownStarted with ha | ⟨-, hstar⟩
    · exact h.cooling stake rfl start (ha ▸ ht)
    · obtain rfl := Option.mem_unique hstar ht
      exact h.made

omit [DecidableEq A] in
theorem Subordinate.unstake {start : ℕ} {st : Stake} (h : Subordinate block (some st) d)
    (hb : StakedBefore block st) (hs : st.cooldownStarted = some start)
    (hn : saturatingAdd 32 start st.cooldownPeriod ≤ block) (ha : block < 2 ^ 32 - 1) :
    Subordinate block none d := by
  refine ⟨h.made, by simp, by simp, fun _ => ?_⟩
  by_cases hl : st.created ≤ d.created
  · have hh := h.shorter st rfl hl
    have hc := h.cooling st rfl start hs
    unfold saturatingAdd maxOf at hn
    omega
  · have hr := hb.1
    omega

omit [DecidableEq A] in
theorem Subordinate.stake {x period : ℕ} {auto : Bool} (h : Subordinate block none d) :
    Subordinate block (some (Stake.new x block period auto)) d := by
  refine ⟨h.made, fun st hs hl => ?_, fun st hs start ht => ?_, fun hn => by cases hn⟩
  · obtain rfl := Option.some.inj hs
    have hl' : block ≤ d.created := hl
    rcases h.unstaked rfl with hold | hf
    · omega
    · rw [hf]
      exact Nat.zero_le _
  · obtain rfl := Option.some.inj hs
    cases ht

theorem Ordered.setCommitment {c : CommitmentId} {cm' : Commitment} (hb : Ordered b)
    (hl : b'.block = b.block) (ho : b'.commitments = b.commitments.insert c cm')
    (hde : b'.delegations = b.delegations)
    (ht : ∀ st, cm'.stake = some st → StakedBefore b.block st)
    (hu : ∀ d, Subordinate b.block ((b.commitments.lookup c).bind (·.stake)) d →
      Subordinate b.block cm'.stake d) : Ordered b' := by
  constructor
  · intro c' cm st hm hs
    rw [ho, lookup_insert_eq] at hm
    rw [hl]
    split_ifs at hm
    · obtain rfl := Option.some.inj hm
      exact ht st hs
    · exact hb.stakes c' cm st hm hs
  · intro who c' d hd
    rw [hde] at hd
    rw [hl, ho, lookup_insert_eq]
    have hold := hb.delegations who c' d hd
    split_ifs with hc
    · subst hc
      exact hu d.stake hold
    · exact hold

theorem Amends.ordered (h : Amends T allow b b') (hl : b.block < 2 ^ 32 - 1) (hb : Ordered b) :
    Ordered b' := by
  cases h with
  | tick =>
    constructor
    · intro c cm stake hc hsta
      have hbe := hb.stakes c cm stake hc hsta
      exact ⟨Nat.le_succ_of_le hbe.1, fun start hstar =>
        Nat.le_succ_of_le (hbe.2 start hstar)⟩
    · intro who c d hd
      have hsu := hb.delegations who c d hd
      exact ⟨Nat.le_succ_of_le hsu.made, hsu.shorter, hsu.cooling, fun _ =>
        .inl (Nat.lt_succ_of_le hsu.made)⟩
  | agree hf ha =>
    refine hb.setCommitment rfl rfl rfl (fun stake' ht' => ?_) fun d hd => ?_
    · obtain ⟨stake, hsta, hte⟩ := ha.stake_of_some ht'
      exact (hb.stakes _ _ stake hf hsta).of_terms hte
    · rw [hf, Option.bind_some] at hd
      exact hd.of_terms ha.stake
  | restate hf hs hs' hr =>
    refine hb.setCommitment rfl rfl rfl (fun stake' ht' => ?_) fun d hd => ?_
    · obtain rfl := Option.mem_unique hs' ht'
      obtain ⟨hcr, hstarted⟩ := hb.stakes _ _ _ hf hs
      refine ⟨hr.created ▸ hcr, fun start hstar => ?_⟩
      rcases hr.cooldownStarted with hsa | ⟨-, hn⟩
      · exact hstarted start (hsa ▸ hstar)
      · obtain rfl := Option.mem_unique hn hstar
        exact le_rfl
    · rw [hf, Option.bind_some, hs] at hd
      rw [hs']
      exact hd.restate hr
  | lowerCommission hf =>
    refine hb.setCommitment rfl rfl rfl (fun stake hsta => hb.stakes _ _ stake hf hsta)
      fun d hd => ?_
    rwa [hf, Option.bind_some] at hd
  | raiseCommission hf =>
    refine hb.setCommitment rfl rfl rfl (fun stake hsta => hb.stakes _ _ stake hf hsta)
      fun d hd => ?_
    rwa [hf, Option.bind_some] at hd
  | stake free hs =>
    refine hb.setCommitment rfl rfl rfl (fun stake hsta => ?_) fun d hd => ?_
    · obtain rfl := Option.mem_unique hs hsta
      exact ⟨le_rfl, fun start hstar => by cases hstar⟩
    · rw [free] at hd
      rw [hs]
      exact hd.stake
  | unstake hf hs hu rate started hen =>
    refine hb.setCommitment rfl rfl rfl (fun stake hsta => ?_) fun d hd => ?_
    · rw [hu] at hsta
      cases hsta
    · rw [hf, Option.bind_some, hs] at hd
      rw [hu]
      exact hd.unstake (hb.stakes _ _ _ hf hs) started hen hl
  | tend hde ht =>
    refine ⟨hb.stakes, fun who' c' d₁ hd₁ => ?_⟩
    rcases of_lookup_insert hd₁ with ⟨hk, rfl⟩ | ⟨hk, hd₁⟩
    · obtain ⟨rfl, rfl⟩ := Prod.mk.inj hk
      have hsu := hb.delegations _ _ _ hde
      refine ⟨?_, ?_, ?_, ?_⟩
      · rw [ht.created]
        exact hsu.made
      · rw [ht.created, ht.cooldownPeriod]
        exact hsu.shorter
      · rw [ht.created]
        exact hsu.cooling
      · rw [ht.created, ht.cooldownPeriod]
        exact hsu.unstaked
    · exact hb.delegations who' c' d₁ hd₁
  | leave =>
    refine ⟨hb.stakes, fun who' c' d₁ hd₁ => ?_⟩
    exact hb.delegations who' c' d₁ (of_lookup_erase hd₁).2
  | join hf hs hac new min max hh =>
    refine ⟨hb.stakes, fun who' c' d₁ hd₁ => ?_⟩
    rcases of_lookup_insert hd₁ with ⟨hk, rfl⟩ | ⟨hk, hd₁⟩
    · obtain ⟨rfl, rfl⟩ := Prod.mk.inj hk
      dsimp only
      rw [hf, Option.bind_some, hs, new]
      refine ⟨le_rfl, fun st hst _ => ?_, fun st hst start hstar => ?_, fun ho => by cases ho⟩
      · obtain rfl := Option.some.inj hst
        exact hh
      · obtain rfl := Option.some.inj hst
        rw [hac] at hstar
        cases hstar
    · exact hb.delegations who' c' d₁ hd₁

theorem Amends.block_le (h : Amends T allow b b') : b.block ≤ b'.block := by
  cases h with
  | tick => exact Nat.le_succ _
  | agree | restate | lowerCommission | raiseCommission | stake | unstake | tend | leave | join =>
    exact le_rfl

theorem run_ordered (w : T.World) (ops : List (Op T))
    (hl : (reached w ops).blockNumber < 2 ^ 32 - 1) :
    Ordered (reached w ops).terms := by
  have ha : ∀ b b' : Terms A, Amends T (fun _ => True) b b' →
      (b.block < 2 ^ 32 - 1 → Ordered b) → b'.block < 2 ^ 32 - 1 → Ordered b' := by
    intro b b' h hb hl
    have hl' : b.block < 2 ^ 32 - 1 := h.block_le.trans_lt hl
    exact h.ordered hl' (hb hl')
  have hk : ∀ (s : State T) op, (s.blockNumber < 2 ^ 32 - 1 → Ordered s.terms) →
      (step s op).blockNumber < 2 ^ 32 - 1 → Ordered (step s op).terms := by
    intro s op hs
    have hp : Permits (fun _ => True) s op := ⟨fun _ _ => trivial, fun _ _ => trivial⟩
    exact Amendments.invariant ha (step_terms s op hp) hs
  refine run_invariant' hk ops (fun _ => ⟨?_, ?_⟩) hl
  · intro c cm st hc
    simp [State.genesis, State.terms] at hc
  · intro who c d hd
    simp [State.genesis, State.terms] at hd

theorem saturatingAdd_mono {w a b c d : ℕ} (ha : a ≤ c) (hb : b ≤ d) :
    saturatingAdd w a b ≤ saturatingAdd w c d := by
  unfold saturatingAdd
  omega

omit [DecidableEq A] in
theorem checkDelegationCooldown_of_committer {st : Stake}
    (hc : checkCommitmentCooldown block st true = .ok ())
    (hs : d.cooldownPeriod ≤ st.cooldownPeriod ∨ 2 ^ 32 - 1 ≤ block) :
    checkDelegationCooldown block st d = .ok () := by
  simp only [checkCommitmentCooldown, if_true, ok_iff] at hc
  obtain ⟨start, ht, hen⟩ := hc
  have hr : ∀ first, first ≤ start → saturatingAdd 32 first d.cooldownPeriod ≤ block := by
    intro first hf
    rcases hs with hl | hn
    · exact (saturatingAdd_mono hf hl).trans hen
    · have hm : saturatingAdd 32 first d.cooldownPeriod ≤ maxOf 32 := min_le_right _ _
      exact hm.trans hn
  unfold checkDelegationCooldown
  rw [ht]
  cases d.cooldownStarted with
  | none =>
    rw [ensure_eq_ok]
    exact hr start le_rfl
  | some own =>
    dsimp only
    rw [ensure_eq_ok]
    apply hr
    split_ifs with hf
    · exact le_rfl
    · exact Nat.le_of_not_lt hf

theorem delegators_free_with_committer (w : T.World) (ops : List (Op T)) (c : CommitmentId)
    (cm : Commitment) (stake : Stake) (who : A) (d : Delegation)
    (hcm : (reached w ops).commitments.lookup c = some cm)
    (hstake : cm.stake = some stake)
    (hd : (reached w ops).delegations.lookup (who, c) = some d)
    (hlive : stake.created ≤ d.stake.created) :
    ((reached w ops).blockNumber < 2 ^ 32 - 1 →
      d.stake.cooldownPeriod ≤ stake.cooldownPeriod) ∧
    (checkCommitmentCooldown (reached w ops).blockNumber stake true = .ok () →
      checkDelegationCooldown (reached w ops).blockNumber stake d.stake = .ok ()) := by
  have hh : (reached w ops).blockNumber < 2 ^ 32 - 1 →
      d.stake.cooldownPeriod ≤ stake.cooldownPeriod := by
    intro hl
    have hs := (run_ordered w ops hl).delegations who c d hd
    have hf : (reached w ops).terms.commitments.lookup c = some cm := hcm
    rw [hf, Option.bind_some, hstake] at hs
    exact hs.shorter stake rfl hlive
  refine ⟨hh, fun hc => checkDelegationCooldown_of_committer hc ?_⟩
  rcases Nat.lt_or_ge (reached w ops).blockNumber (2 ^ 32 - 1) with hl | hn
  · exact .inl (hh hl)
  · exact .inr hn

def cooled : List (Op mock) := opening ++ signed 2 .cooldownComputeCommitment :: List.replicate 36 .block

theorem delegators_free_of_cooled : ∃ cm stake d, (after cooled).commitments.lookup 0 = some cm ∧
    cm.stake = some stake ∧ (after cooled).delegations.lookup (4, 0) = some d ∧
    checkCommitmentCooldown (after cooled).blockNumber stake true = .ok () ∧
    d.stake.cooldownPeriod ≤ stake.cooldownPeriod ∧
    checkDelegationCooldown (after cooled).blockNumber stake d.stake = .ok () := by
  have ht : (((after cooled).commitments.lookup 0).bind (·.stake)).map (fun stake => (stake.created,
      (checkCommitmentCooldown (after cooled).blockNumber stake true).isOk)) = some (2, true) := by
    decide +kernel
  have hde : ((after cooled).delegations.lookup (4, 0)).map (·.stake.created) = some 2 := by
    decide +kernel
  have hl : (after cooled).blockNumber < 2 ^ 32 - 1 := by decide +kernel
  obtain ⟨stake, hb, hr⟩ := Option.map_eq_some_iff.mp ht
  obtain ⟨hr, ho⟩ := Prod.mk.inj hr
  obtain ⟨cm, hc, hs⟩ := Option.bind_eq_some_iff.mp hb
  obtain ⟨d, hd, hm⟩ := Option.map_eq_some_iff.mp hde
  obtain ⟨⟨⟩, hok⟩ := isOk_iff.mp ho
  have hli : stake.created ≤ d.stake.created := by rw [hr, hm]
  have hf := delegators_free_with_committer (T := mock) [] cooled 0 cm stake 4 d hc hs hd hli
  exact ⟨cm, stake, d, hc, hs, hd, hok, hf.1 hl, hf.2 hok⟩

/-- In the block with the last number a stake with the longest period is delegated to, ended, and made
anew with the shortest one. -/
def shortenedRun : List (Op longEpochs) := atLastBlock
  [.block, signed 2 (stakeCallFor 108), signed 4 (.delegate 2 (50 * unit) 108 false),
    signed 2 .cooldownComputeCommitment, signed 2 .endComputeCommitment, signed 2 stakeCall]

/-- The delegation is as young as the new stake, and bound longer. -/
theorem cooldownPeriod_gt_of_shortenedRun :
    (run step (State.genesis longEpochs []) shortenedRun).blockNumber = 2 ^ 32 - 1 ∧
    (((run step (State.genesis longEpochs []) shortenedRun).commitments.lookup 0).bind (·.stake)).map
      (fun stake => (stake.created, stake.cooldownPeriod)) = some (2 ^ 32 - 1, 36) ∧
    ((run step (State.genesis longEpochs []) shortenedRun).delegations.lookup (4, 0)).map
      (fun d => (d.stake.created, d.stake.cooldownPeriod)) = some (2 ^ 32 - 1, 108) := by
  rw [shortenedRun, run_atLastBlock]
  decide +kernel

end Acurast.Compute
