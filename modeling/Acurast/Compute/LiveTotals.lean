import Acurast.Compute.Dated
import Acurast.Compute.Mock

/-! A commitment's totals are the sums over its live delegations, as long as they fit their type and no
slash is taken from a stale delegation. -/

namespace Acurast.Compute

open Base

variable {A : Type} [DecidableEq A] {T : Config A} {allow : Notable A → Prop} {s s' : State T}
  {q : Quantity}

def livePart (q : Quantity) (c : CommitmentId) (created : ℕ) (k : A × CommitmentId) :
    Option Delegation → ℕ
  | some d => if k.2 = c ∧ created ≤ d.stake.created then d.quantity q else 0
  | none => 0

variable {k : A × CommitmentId} {m : StorageMap (A × CommitmentId) Delegation}
  {old : Option Delegation} {c : CommitmentId} {created : ℕ} {who : A} {d : Delegation}
  {cm' : Commitment}

theorem liveSum_changes {m' : StorageMap (A × CommitmentId) Delegation} {new : Option Delegation}
    (h : StorageMap.Changes m m' k old new) (q : Quantity) (c : CommitmentId) (created : ℕ) :
    liveSum m' q c created + livePart q c created k old =
      liveSum m q c created + livePart q c created k new := by
  have hs := h.sum_eq fun k d => if k.2 = c ∧ created ≤ d.stake.created then d.quantity q else 0
  have ha : ∀ d, StorageMap.at? (fun k d => if k.2 = c ∧ created ≤ d.stake.created then d.quantity q
      else 0) k d = livePart q c created k d := by
    intro d
    cases d <;> rfl
  rwa [ha, ha] at hs

omit [DecidableEq A] in
theorem livePart_of_ne {c' : CommitmentId} (h : c' ≠ c) (d : Option Delegation) :
    livePart q c created (who, c') d = 0 := by
  cases d with
  | none => rfl
  | some d => exact if_neg fun hl => h hl.1

omit [DecidableEq A] in
theorem livePart_of_live (h : created ≤ d.stake.created) :
    livePart q c created (who, c) (some d) = d.quantity q :=
  if_pos ⟨rfl, h⟩

omit [DecidableEq A] in
theorem livePart_of_stale (h : d.stake.created < created) :
    livePart q c created (who, c) (some d) = 0 :=
  if_neg fun hl => absurd hl.2 h.not_ge

theorem quantity_le_liveSum (hd : m.lookup (who, c) = some d) (hl : created ≤ d.stake.created) :
    d.quantity q ≤ liveSum m q c created := by
  have hle := StorageMap.le_sum hd
    (f := fun k d => if k.2 = c ∧ created ≤ d.stake.created then d.quantity q else 0)
  rw [liveSum]
  simpa only [true_and, if_pos hl] using hle

def Counts (q : Quantity) (s : State T) : Prop := ∀ c cm stake, s.commitments.lookup c = some cm →
  cm.stake = some stake → cm.total q = liveSum s.delegations q c stake.created

omit [DecidableEq A] in
theorem genesis_counts (q : Quantity) (w : T.World) : Counts q (State.genesis T w) := by
  intro c cm st hc
  simp [State.genesis] at hc

omit [DecidableEq A] in
theorem Counts.of_commitment (hs : Counts q s)
    (hc : s'.commitments = s.commitments.insert c cm')
    (hd : s'.delegations = s.delegations)
    (ho : ∀ st, cm'.stake = some st →
      cm'.total q = liveSum s.delegations q c st.created) : Counts q s' := by
  intro c' cm'' st hc' ht
  rw [hd]
  rw [hc] at hc'
  rcases of_lookup_insert hc' with ⟨hq, rfl⟩ | ⟨hq, hc'⟩
  · exact hq ▸ ho st ht
  · exact hs c' cm'' st hc' ht

theorem Counts.of_delegation {new : Option Delegation} (hs : Counts q s)
    (hc : s'.commitments = s.commitments.insert c cm')
    (hh : StorageMap.Changes s.delegations s'.delegations (who, c) old new)
    (ht : ∀ st, cm'.stake = some st →
      cm'.total q + livePart q c st.created (who, c) old =
        liveSum s.delegations q c st.created + livePart q c st.created (who, c) new) :
    Counts q s' := by
  intro c' cm'' st hc' hst
  have hu := liveSum_changes hh q c' st.created
  rw [hc] at hc'
  rcases of_lookup_insert hc' with ⟨hq, rfl⟩ | ⟨hq, hc'⟩
  · subst hq
    have ht := ht st hst
    omega
  · rw [livePart_of_ne (Ne.symm hq), livePart_of_ne (Ne.symm hq)] at hu
    rw [hs c' cm'' st hc' hst]
    omega

theorem Lowered.total_add {cm : Commitment} {d' : Delegation} {st : Stake}
    (h : Lowered allow cm cm' d d') (hs : Counts q s) (hc : s.commitments.lookup c = some cm)
    (ht : cm.stake = some st) (hd : s.delegations.lookup (who, c) = some d)
    (hcr : d'.stake.created = d.stake.created)
    (hsta : allow .staleSlash → q = .rewardWeight ∨ q = .slashWeight) :
    cm'.total q + livePart q c st.created (who, c) (some d) =
      liveSum s.delegations q c st.created + livePart q c st.created (who, c) (some d') := by
  rw [← hs c cm st hc ht]
  cases h with
  | @live st' staked live hf =>
    obtain rfl := Option.mem_unique ht staked
    obtain ⟨hle, ho⟩ := hf q
    have hp : d.quantity q ≤ cm.total q := by
      rw [hs c cm st hc ht]
      exact quantity_le_liveSum hd live
    rw [livePart_of_live live, livePart_of_live (hcr ▸ live), ho]
    omega
  | gone hu =>
    rw [ht] at hu
    cases hu
  | @stale st' staked stale hr hl ha =>
    obtain rfl := Option.mem_unique ht staked
    rw [livePart_of_stale stale, livePart_of_stale (hcr ▸ stale)]
    rcases ha with hsa | hal
    · rw [hsa q]
    · rcases hsta hal with rfl | rfl
      · rw [hr]
      · rw [hl]

theorem Posting.counts (h : Posting allow s s') (hstal : allow .staleSlash → q = .rewardWeight ∨
    q = .slashWeight) (hfi : ¬ allow (.overflow q)) (hb : ¬ allow .sameBlock) (hda : Dated s)
    (hs : Counts q s) : Counts q s' := by
  cases h with
  | rest hl => simpa only [Counts, hl.commitments, hl.delegations] using hs
  | outside | create => exact hs
  | idle hf hu =>
    refine hs.of_commitment rfl rfl fun stake ha => ?_
    rw [hu] at ha
    cases ha
  | @keep c cm cm' stake st' hf hk =>
    refine hs.of_commitment rfl rfl fun st hst => ?_
    obtain rfl := Option.mem_unique hk.staked' hst
    rw [hk.total, hk.created, hs c cm stake hf hk.staked]
  | @restake who c cm cm' stake st' hf hk =>
    refine hs.of_commitment rfl rfl fun st hst => ?_
    obtain rfl := Option.mem_unique hk.staked' hst
    rw [hk.total, hk.created, hs c cm stake hf hk.staked]
  | @stake who c cm stake stakes created hto hc hco ho =>
    refine hs.of_commitment rfl rfl fun st hst => ?_
    obtain rfl := Option.mem_unique stakes.stake_eq hst
    -- every delegation was made to an earlier stake
    rw [hto q, liveSum, StorageMap.sum_eq_zero]
    rintro ⟨who', c'⟩ d hd
    refine if_neg ?_
    rintro ⟨rfl, hle⟩
    have hlt := (ho.resolve_right hb) who' d hd
    rw [created] at hle
    exact absurd hle hlt.not_ge
  | @unstake who c cm cm' stake start hf staked hu =>
    refine hs.of_commitment rfl rfl fun st hst => ?_
    rw [hu] at hst
    cases hst
  | @settle who c d d' hde hse =>
    intro c' cm stake hcm ha
    have hm := liveSum_changes (.insert hde d') q c' stake.created
    have hp : livePart q c' stake.created (who, c) (some d') =
        livePart q c' stake.created (who, c) (some d) := by
      simp only [livePart, hse.created, hse.quantity]
    rw [hp, Nat.add_right_cancel_iff] at hm
    rw [hs c' cm stake hcm ha, hm]
  | @lower who c cm cm' d d' lost hf hde hr same hlo =>
    refine hs.of_delegation rfl (.insert hde d') fun stake ha => ?_
    exact hlo.total_add hs hf (same.stake ▸ ha) hde hr.created hstal
  | @cool who c cm cm' d d' stake hf hde hr same staked live hfo =>
    refine hs.of_delegation rfl (.insert hde d') fun st' hs' => ?_
    exact Lowered.total_add (.live staked live hfo) hs hf (same.stake ▸ hs') hde hr.created hstal
  | @leave who c cm cm' d hf hde same left =>
    refine hs.of_delegation rfl (.erase hde) fun stake ha => ?_
    rw [same.stake] at ha
    rw [← hs c cm stake hf ha]
    cases left with
    | @live st' staked live ht =>
      obtain rfl := Option.mem_unique ha staked
      have hp : d.quantity q ≤ cm.total q := by
        rw [hs c cm stake hf ha]
        exact quantity_le_liveSum hde live
      rw [livePart_of_live live, ht q, livePart]
      omega
    | aside stale hq => rw [livePart_of_stale (stale stake ha), hq, livePart]
  | @join who c cm cm' d stake hf staked active free created rewardable settled same ht small
      fits =>
    refine hs.of_delegation rfl (.insert free d) fun st' hs' => ?_
    rw [same.stake, staked] at hs'
    obtain rfl := Option.some.inj hs'
    have hli : stake.created ≤ d.stake.created := by
      rw [created]
      exact (hda.stake c cm stake hf staked).created
    have hm := liveSum_changes (.insert free d) q c stake.created
    have hfit := (fits q).resolve_right hfi
    rw [livePart_of_live hli] at hm ⊢
    rw [ht q, hs c cm stake hf staked, livePart, saturatingAdd_eq (by rw [livePart] at hm; omega)]
    omega

theorem Postings.counts (h : Postings allow s s') (hst : allow .staleSlash → q = .rewardWeight ∨
    q = .slashWeight) (hf : ¬ allow (.overflow q)) (hbl : ¬ allow .sameBlock)
    (hm : 0 < T.minCooldownPeriod) (hl : s'.blockNumber < 2 ^ 32 - 1) (hd : Dated s)
    (hs : Counts q s) : Counts q s' := by
  induction h with
  | refl => exact hs
  | tail hb hp ih =>
    have ht := Nat.lt_of_le_of_lt hp.block_le hl
    exact hp.counts hst hf hbl (Postings.dated hb hm ht hd) (ih ht)

def Small (s : State T) : Prop := ∀ k d, s.delegations.lookup k = some d → ∀ q, d.quantity q < 2 ^ 128

theorem Small.insert (hs : Small s) (hde : s'.delegations = s.delegations.insert k d)
    (hd : ∀ q, d.quantity q < 2 ^ 128) : Small s' := by
  intro k' d' hd'
  rw [hde] at hd'
  rcases of_lookup_insert hd' with ⟨-, rfl⟩ | ⟨-, hd'⟩
  · exact hd
  · exact hs k' d' hd'

theorem Posting.small (h : Posting allow s s') (hs : Small s) : Small s' := by
  cases h with
  | rest hl => simpa only [Small, hl.delegations] using hs
  | outside | create | idle | keep | restake | stake | unstake => exact hs
  | settle hde hse =>
    refine hs.insert rfl fun q => ?_
    rw [hse.quantity]
    exact hs _ _ hde q
  | lower hf hde hr =>
    exact hs.insert rfl fun q => Nat.lt_of_le_of_lt (hr.quantity q) (hs _ _ hde q)
  | cool hf hde hr =>
    exact hs.insert rfl fun q => Nat.lt_of_le_of_lt (hr.quantity q) (hs _ _ hde q)
  | leave =>
    intro k d hd
    exact hs k d (of_lookup_erase hd).2
  | @join who c cm cm' d stake hf hst ha free created hre hset same ht hm =>
    exact hs.insert rfl hm

theorem Postings.small (h : Postings allow s s') (hs : Small s) : Small s' :=
  h.invariant (fun _ _ => Posting.small) hs

theorem genesis_small (T : Config A) (w : T.World) : Small (State.genesis T w) := by
  intro k d hd
  simp [State.genesis] at hd

theorem run_counts {ok : State T → Op T → Prop} {w : T.World} {ops : List (Op T)}
    (ht : ∀ s op, ok s op → Regular s → Small s → Aged s → Postings allow s (step s op))
    (hst : allow .staleSlash → q = .rewardWeight ∨ q = .slashWeight)
    (hf : ¬ allow (.overflow q)) (hb : ¬ allow .sameBlock) (hm : 0 < T.minCooldownPeriod)
    (hu : Along step ok (State.genesis T w) ops)
    (hla : (reached w ops).blockNumber < 2 ^ 32 - 1) :
    Dated (reached w ops) ∧ Counts q (reached w ops) := by
  have hk : ∀ s op, ok s op →
      (Regular s ∧ Small s ∧ (s.blockNumber < 2 ^ 32 - 1 → Dated s ∧ Counts q s)) →
      Regular (step s op) ∧ Small (step s op) ∧
        ((step s op).blockNumber < 2 ^ 32 - 1 → Dated (step s op) ∧ Counts q (step s op)) := by
    rintro s op ho ⟨hr, hsm, hs⟩
    have ha := step_postings_any s op hr
    refine ⟨ha.regular hr, ha.small hsm, fun hl => ?_⟩
    obtain ⟨hd, hc⟩ := hs (Nat.lt_of_le_of_lt ha.block_le hl)
    have hp := ht s op ho hr hsm hd.aged
    exact ⟨hp.dated hm hl hd, hp.counts hst hf hb hm hl hd hc⟩
  exact (run_invariant hk hu ⟨genesis_regular T w, genesis_small T w,
    fun _ => ⟨genesis_dated T w, genesis_counts q w⟩⟩).2.2 hla

theorem Fits.rewardableAmount (h : Fits .amount s) (hs : Regular s) : Fits .rewardableAmount s := by
  intro c cm st hc ht
  refine Nat.lt_of_le_of_lt (StorageMap.sum_le_sum fun k d hd => ?_) (h c cm st hc ht)
  split_ifs
  · show d.stake.rewardableAmount ≤ d.stake.amount
    rw [hs k d hd]
    exact rewardableOf_le _ _
  · exact le_rfl

instance (q : Quantity) (s : State T) : Decidable (Fits q s) :=
  decidable_of_iff (∀ e ∈ s.commitments.entries, ∀ stake ∈ e.2.stake,
    liveSum s.delegations q e.1 stake.created < 2 ^ q.width)
    ⟨fun h c cm stake hcm hstake => h ⟨c, cm⟩ (mem_entries_iff.mpr hcm) stake hstake,
      fun h e he stake hstake => h e.1 e.2 stake (mem_entries_iff.mp he) hstake⟩

instance (s : State T) (op : Op T) : Decidable (TakesFromLive s op) :=
  inferInstanceAs (Decidable (∀ k ∈ slashedDelegation s op, slashDue s k.1 k.2 = 0 ∨
    ∀ cm ∈ s.commitments.lookup k.2, ∀ stake ∈ cm.stake, ∀ d ∈ s.delegations.lookup (k.1, k.2),
      stake.created ≤ d.stake.created))

def SparesTotals {A : Type} (i : Notable A) : Prop :=
  i ≠ .staleSlash ∧ i ≠ .sameBlock ∧ i ≠ .overflow .amount ∧ i ≠ .overflow .rewardableAmount

theorem step_postings_sparesTotals (s : State T) (op : Op T) (hs : Regular s) (ha : Aged s)
    (hl : TakesFromLive s op) (hf : Fits .amount (step s op)) :
    Postings SparesTotals s (step s op) := by
  have hr : Regular (step s op) :=
    (step_postings_any s op hs).regular hs
  have ho : ∀ q, Fits q (step s op) ∨ SparesTotals (A := A) (.overflow q) := by
    intro q
    cases q with
    | amount => exact .inl hf
    | rewardableAmount => exact .inl (hf.rewardableAmount hr)
    | rewardWeight | slashWeight => exact .inr (by simp [SparesTotals])
  apply step_postings s op hs
  exact ⟨.inl hl, ho, .inl ha,
    fun _ _ => .inr (by simp [SparesTotals]), fun _ _ => by simp [SparesTotals],
    .inr (by simp [SparesTotals]), .inr (by simp [SparesTotals])⟩

/-- Account `4` delegates to a stake that is slashed and ended. Account `2` stakes anew, and account
`5` delegates to the new stake. -/
def restaked : List (Op mock) :=
  opening ++ List.replicate 3 .block ++ [signed 5 (.slash 2), signed 2 .cooldownComputeCommitment] ++
    List.replicate 36 .block ++ [signed 2 .endComputeCommitment, beat, .block, signed 2 stakeCall,
      signed 5 (.delegate 2 (5 * unit) 36 false)]

/-- The totals of every staked commitment are the sums over its live delegations, in every run whose
slashes are taken from live delegations, whose sums fit the balance type and whose cooldowns take at
least a block. -/
theorem totals_eq_liveSum_of_takesFromLive (hmin : 0 < T.minCooldownPeriod) (w : T.World)
    (ops : List (Op T))
    (hrun : Along step (fun s op => TakesFromLive s op ∧ Fits .amount (step s op))
      (State.genesis T w) ops)
    (hlast : (reached w ops).blockNumber < 2 ^ 32 - 1) (c : CommitmentId)
    (cm : Commitment) (stake : Stake)
    (hcm : (reached w ops).commitments.lookup c = some cm)
    (hstake : cm.stake = some stake) :
    cm.delegationsTotalAmount =
        liveSum (reached w ops).delegations .amount c stake.created ∧
      cm.delegationsTotalRewardableAmount =
        liveSum (reached w ops).delegations .rewardableAmount c stake.created := by
  have ht : ∀ (s : State T) (op : Op T), TakesFromLive s op ∧ Fits .amount (step s op) →
      Regular s → Small s → Aged s → Postings SparesTotals s (step s op) :=
    fun s op ho hs _ ha => step_postings_sparesTotals s op hs ha ho.1 ho.2
  obtain ⟨-, hm⟩ := run_counts (q := .amount) ht (by simp [SparesTotals])
    (by simp [SparesTotals]) (by simp [SparesTotals]) hmin hrun hlast
  obtain ⟨-, hr⟩ := run_counts (q := .rewardableAmount) ht (by simp [SparesTotals])
    (by simp [SparesTotals]) (by simp [SparesTotals]) hmin hrun hlast
  exact ⟨hm c cm stake hcm hstake, hr c cm stake hcm hstake⟩

theorem totals_of_restaked : ∃ cm stake,
    (after restaked).commitments.lookup 0 = some cm ∧
      cm.stake = some stake ∧ cm.delegationsTotalAmount =
        liveSum (after restaked).delegations .amount 0 stake.created := by
  have hr : Along step (fun s op => TakesFromLive s op ∧ Fits .amount (step s op))
      (State.genesis mock []) restaked := by decide +kernel
  have hl : (after restaked).blockNumber < 2 ^ 32 - 1 := by
    decide +kernel
  have ht : ((after restaked).commitments.lookup 0).bind (·.stake) ≠
      none := by decide +kernel
  obtain ⟨stake, hb⟩ := Option.ne_none_iff_exists'.mp ht
  obtain ⟨cm, hc, hs⟩ := Option.bind_eq_some_iff.mp hb
  exact ⟨cm, stake, hc, hs, (totals_eq_liveSum_of_takesFromLive (T := mock) (by decide) []
    restaked hr hl 0 cm stake hc hs).1⟩

def staleWithdrawal : List (Op mock) := restaked ++ [signed 4 (.withdrawDelegation 2)]

def storedAndLive (s : State mock) (c : CommitmentId) : Option (ℕ × ℕ) :=
  (s.commitments.lookup c).bind fun cm => cm.stake.map fun stake =>
    (cm.delegationsTotalAmount, liveSum s.delegations .amount c stake.created)

/-- The slash of the stale delegation, one and a half units, is taken off the new stake's total. -/
theorem storedAndLive_of_staleWithdrawal :
    storedAndLive (after restaked) 0 = some (5 * unit, 5 * unit) ∧
      storedAndLive (after staleWithdrawal) 0 =
        some (3500000000000, 5 * unit) := by
  decide +kernel

end Acurast.Compute
