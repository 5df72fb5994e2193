import Acurast.Compute.Counting
import Acurast.Compute.Mock
import Acurast.Compute.Pools

/-! How a slash reaches the delegators: through the slash index, which every delegation younger
than the stake reads, whether or not it had weight in the epoch that is slashed for. -/

namespace Acurast.Compute

open Base

variable {A : Type} {T : Config A} {s s' : State T} {slasher committer owner : A} {c : CommitmentId}

def slashIndexAt (s : State T) (c : CommitmentId) (created : ℕ) : ℕ :=
  (indexAt s c created).elim 0 (·.2.slashPerWeight)

def slashBetween (s s' : State T) (c : CommitmentId) (k : A × CommitmentId) (d : Delegation) : ℕ :=
  if k.2 = c then
    d.slashWeight * (slashIndexAt s' c d.stake.created - slashIndexAt s c d.stake.created) /
      perTokenDecimals
  else 0

def delegationsShare (s : State T) (c : CommitmentId) : ℕ := owedSlash s c - committerShare s c

def liveSlashWeight (s : State T) (c : CommitmentId) (created : ℕ) : ℕ :=
  StorageMap.sum s.delegations fun k d =>
    if k.2 = c ∧ created ≤ d.stake.created then d.slashWeight else 0

abbrev SlashRemembered (s : State T) (c : CommitmentId) : Prop :=
  ∀ cm ∈ s.commitments.lookup c, ∀ stake ∈ cm.stake,
    liveSlashWeight s c stake.created ≤ (rememberedWeights s c).delegationsSlashWeight

def chargedIn (c : CommitmentId) (t : ℕ) : Entry A → ℕ
  | .accrued _ c' t' _ slash => if c' = c ∧ t' = t then slash else 0
  | _ => 0

def slashClaims (s : State T) (c : CommitmentId) (t : ℕ) : ℕ :=
  StorageMap.sum s.delegations fun k d =>
    if k.2 = c then (indexAt s c d.stake.created).elim 0 fun e =>
      if e.1 = t then Accrual.claim perTokenDecimals d.slashWeight e.2.slashPerWeight d.slashDebt
      else 0
    else 0

def raiseOf (s : State T) (c : CommitmentId) : ℕ :=
  delegationsShare s c * perTokenDecimals / (rememberedWeights s c).delegationsSlashWeight

/-- The slash index after a call, as the delegations of the commitment read it: raised only for
those younger than the stake. -/
structure Raised (s s' : State T) (c : CommitmentId) (created : ℕ) : Prop where
  delegations : s'.delegations = s.delegations
  old : ∀ time, time < created → indexAt s' c time = indexAt s c time
  live : ∀ time, created ≤ time → ∃ r r', indexAt s c time = some (created, r) ∧
    indexAt s' c time = some (created, r') ∧ r'.slashPerWeight ≤ r.slashPerWeight + raiseOf s c

variable {cm : Commitment} {stake st : Stake} {created : ℕ}

theorem Raised.refl (hs : PoolsCurrent s) (hm : s.commitments.lookup c = some cm)
    (ht : cm.stake = some st) (hd : s'.delegations = s.delegations)
    (hn : indexAt s' = indexAt s) :
    Raised s s' c st.created where
  delegations := hd
  old := fun time _ => by rw [hn]
  live := fun time hl => by
    have hc := indexAt_current hs hm ht hl
    exact ⟨_, _, hc, hn ▸ hc, Nat.le_add_right _ _⟩

theorem Planned.increase_le {plan : SlashPlan} {m : ManagerId} {shares : SlashShares}
    (h : Planned s c plan cm m)
    (hs : splitSlash plan.weights plan.totalSlashAmount = .ok shares) :
    shares.slashPerWeightIncrease.getD 0 ≤ raiseOf s c := by
  obtain ⟨-, hu, hn⟩ := splitSlash_ok hs h.total_lt
  have hh : shares.delegationsSlashAmount = delegationsShare s c := by
    rw [h.selfSlashAmount_eq hs, h.total] at hu
    rw [delegationsShare]
    omega
  cases hi : shares.slashPerWeightIncrease with
  | none => exact Nat.zero_le _
  | some i => rw [Option.getD_some, hn i hi, hh, h.weights, raiseOf]

theorem Raised.mul_slashBetween_le (h : Raised s s' c created) (k : A × CommitmentId)
    (d : Delegation) : perTokenDecimals * slashBetween s s' c k d ≤
      (if k.2 = c ∧ created ≤ d.stake.created then d.slashWeight else 0) * raiseOf s c := by
  unfold slashBetween
  by_cases hk : k.2 = c
  · simp only [hk, if_true, true_and]
    refine (Nat.mul_div_le _ _).trans ?_
    by_cases hl : created ≤ d.stake.created
    · obtain ⟨r, r', hn, hi', hle⟩ := h.live _ hl
      rw [if_pos hl, slashIndexAt, slashIndexAt, hn, hi', Option.elim_some, Option.elim_some]
      exact Nat.mul_le_mul_left _ (Nat.sub_le_iff_le_add'.mpr hle)
    · rw [if_neg hl, slashIndexAt, slashIndexAt, h.old _ (Nat.lt_of_not_le hl), Nat.sub_self,
        Nat.mul_zero]
      exact Nat.zero_le _
  · rw [if_neg hk, Nat.mul_zero]
    exact Nat.zero_le _

theorem Raised.mul_owedBy_le {t : ℕ} (h : Raised s s' c created) (k : A × CommitmentId)
    (d : Delegation) : perTokenDecimals * slashSide.owedBy t s' c k d ≤
      (if k.2 = c then (indexAt s c d.stake.created).elim 0 fun e =>
        if e.1 = t then Accrual.claim perTokenDecimals d.slashWeight e.2.slashPerWeight d.slashDebt
        else 0 else 0) +
      (if k.2 = c ∧ created ≤ d.stake.created then d.slashWeight else 0) * raiseOf s c := by
  unfold Side.owedBy
  by_cases hk : k.2 = c
  · simp only [hk, if_true, true_and]
    by_cases hl : created ≤ d.stake.created
    · obtain ⟨r, r', hn, hi', hle⟩ := h.live _ hl
      rw [hn, hi', if_pos hl, Option.elim_some]
      simp only [Side.valueAt]
      split_ifs
      · calc perTokenDecimals * slashSide.value d r'.slashPerWeight
            ≤ Accrual.claim perTokenDecimals d.slashWeight r'.slashPerWeight d.slashDebt :=
              Accrual.mul_due_le_claim _ _ _
          _ ≤ Accrual.claim perTokenDecimals d.slashWeight (r.slashPerWeight + raiseOf s c)
              d.slashDebt := Accrual.claim_mono hle
          _ ≤ _ := Accrual.claim_add_le _ _ _ _
      · exact Nat.zero_le _
    · rw [if_neg hl, h.old _ (Nat.lt_of_not_le hl), Nat.zero_mul, Nat.add_zero]
      cases indexAt s c d.stake.created with
      | none => exact Nat.zero_le _
      | some e =>
        simp only [Side.valueAt, Option.elim_some]
        split_ifs
        · exact Accrual.mul_due_le_claim _ _ _
        · exact Nat.zero_le _
  · rw [if_neg hk, Nat.mul_zero]
    exact Nat.zero_le _

theorem live_mul_raiseOf_le (h : SlashRemembered s c) (hc : s.commitments.lookup c = some cm)
    (hs : cm.stake = some st) :
    liveSlashWeight s c st.created * raiseOf s c ≤ perTokenDecimals * delegationsShare s c := by
  exact Accrual.spread_le (h cm hc st hs) _

theorem chargedIn_eq_taken (c : CommitmentId) (t : ℕ) :
    (chargedIn c t : Entry A → ℕ) = slashSide.taken t c := by
  funext entry
  cases entry <;> rfl

variable [DecidableEq A]

theorem doSlash_raised (hs : PoolsCurrent s) (h : doSlash s c slasher = .ok s') :
    ∃ cm st, s.commitments.lookup c = some cm ∧ cm.stake = some st ∧
      Raised s s' c st.created := by
  obtain ⟨plan, cm, m, hp, ⟨hz, ha⟩ | ⟨shares, owner, credit, s₁, cm₁, cm', hl⟩⟩ :=
    doSlash_cases (fun _ => True) h (.inr trivial)
  · obtain ⟨st, ht⟩ := Option.isSome_iff_exists.mp hp.staked
    subst ha
    exact ⟨cm, st, hp.found, ht, .refl hs hp.found ht rfl rfl⟩
  · obtain ⟨st, ht⟩ := Option.isSome_iff_exists.mp hp.staked
    refine ⟨cm, st, hp.found, ht, ?_⟩
    obtain ⟨cm₂, stake₂, hc₂, hs₂, -, hr, ho⟩ :=
      hl.taken.stake cm st hp.found ht
    rw [hl.found, Option.some.injEq] at hc₂
    subst hc₂
    have hs₁ := Moves.invariant (fun _ _ => Move.poolsCurrent) hl.moves hs
    have hd : s'.delegations = s.delegations := by
      rw [hl.result]
      exact hl.taken.delegations
    have hc : s'.commitments = s₁.commitments.insert c cm' := by rw [hl.result]
    rcases hl.marks.poolRewards with hq | ⟨stake₃, hs₃, hm⟩
    · exact .refl hs hp.found ht hd ((indexAt_insert hl.found hc hq).trans hl.taken.index)
    · rw [hs₂, Option.some.injEq] at hs₃
      subst hs₃
      have hn := indexAt_mutate hs₁ hl.found hs₂ hc hm c
      rw [hr, hl.taken.index] at hn
      refine ⟨hd, fun time hlt => ?_, fun time hle => ?_⟩
      · rw [hn, if_neg (fun hle => Nat.not_le_of_lt hlt hle.2)]
      · refine ⟨_, _, indexAt_current hs hp.found ht hle, (hn time).trans (if_pos ⟨rfl, hle⟩), ?_⟩
        rw [ho]
        exact saturatingAdd_le.trans (Nat.add_le_add_left (hp.increase_le hl.split) _)

theorem Raised.sum_slashBetween_le (h : Raised s s' c st.created)
    (hr : SlashRemembered s c) (hc : s.commitments.lookup c = some cm)
    (hs : cm.stake = some st) :
    StorageMap.sum s.delegations (slashBetween s s' c) ≤ delegationsShare s c := by
  refine Nat.le_of_mul_le_mul_left ?_ perTokenDecimals_pos
  rw [← StorageMap.sum_mul_left]
  refine (StorageMap.sum_le_sum fun k d _ => h.mul_slashBetween_le k d).trans ?_
  rw [StorageMap.sum_mul_right]
  exact live_mul_raiseOf_le hr hc hs

theorem Raised.mul_owed_le (h : Raised s s' c st.created) (hr : SlashRemembered s c)
    (hc : s.commitments.lookup c = some cm) (hs : cm.stake = some st) (t : ℕ) :
    perTokenDecimals * slashSide.owed t s' c ≤
      slashClaims s c t + perTokenDecimals * delegationsShare s c := by
  rw [Side.owed, h.delegations, ← StorageMap.sum_mul_left]
  refine (StorageMap.sum_le_sum fun k d _ => h.mul_owedBy_le k d).trans ?_
  rw [StorageMap.sum_add, StorageMap.sum_mul_right]
  exact Nat.add_le_add_left (live_mul_raiseOf_le hr hc hs) _

theorem step_slashPotential {bound : ℕ} (c : CommitmentId) (t : ℕ) (s : State T) (op : Op T)
    (ho : op.isSlash = false) (hs : PoolsCurrent s ∧ slashSide.potential t s c ≤ bound) :
    PoolsCurrent (step s op) ∧ slashSide.potential t (step s op) c ≤ bound := by
  have hm : ∀ s s' : State T, Move (· ≠ .slash) s s' →
      PoolsCurrent s ∧ slashSide.potential t s c ≤ bound →
      PoolsCurrent s' ∧ slashSide.potential t s' c ≤ bound := fun s s' h hs =>
    ⟨h.poolsCurrent hs.1,
      (h.potential_le (.inl fun _ _ => rfl) (.inr fun hn => hn rfl) hs.1 t c).trans hs.2⟩
  exact Moves.invariant hm (step_moves s op { slash := .inl ho }) hs

abbrev JoinsBefore (c : CommitmentId) (epoch : ℕ) (s : State T) (op : Op T) : Prop :=
  s.currentCycle.epoch = epoch → ∀ k ∈ madeDelegation s op, k.2 ≠ c

structure Elder (c : CommitmentId) (epoch : ℕ) (s : State T) : Prop where
  born : ∀ k d, s.delegations.lookup k = some d → d.stake.created ≤ s.blockNumber
  elder : s.currentCycle.epoch = epoch → ∀ k d, s.delegations.lookup k = some d → k.2 = c →
    d.stake.created < s.currentCycle.epochStart

def Makes (s : State T) (op : Op T) : Notable A → Prop
  | .join who c => madeDelegation s op = some (who, c)
  | _ => True

theorem step_postings_makes (s : State T) (op : Op T) (hs : Regular s) :
    Postings (Makes s op) s (step s op) := by
  apply step_postings s op hs
  exact ⟨.inr trivial, fun _ => .inr trivial, .inr trivial, fun _ _ => .inr trivial, fun k hk => hk,
    .inr trivial, .inr trivial⟩

theorem Posting.born {allow : Notable A → Prop} (h : Posting allow s s')
    (hs : ∀ k d, s.delegations.lookup k = some d → d.stake.created ≤ s.blockNumber) :
    ∀ k d, s'.delegations.lookup k = some d → d.stake.created ≤ s'.blockNumber := by
  have hk : NoNewer s.delegations s'.delegations → ∀ k d, s'.delegations.lookup k = some d →
      d.stake.created ≤ s'.blockNumber := by
    intro hn k d hd
    obtain ⟨d₀, hd₀, hc⟩ := hn k d hd
    exact hc ▸ (hs k d₀ hd₀).trans h.block_le
  cases h with
  | rest hl => exact hk (hl.delegations ▸ fun k d hd => ⟨d, hd, rfl⟩)
  | outside | create | idle | keep | restake | stake | unstake => exact hs
  | settle hd hse => exact hk (.insert hd hse.created)
  | lower hf hd hr | cool hf hd hr => exact hk (.insert hd hr.created)
  | leave => exact hk .erase
  | join hf hst hac free hcr =>
    intro k d hd
    rcases of_lookup_insert hd with ⟨-, rfl⟩ | ⟨-, hd⟩
    · exact hcr.le
    · exact hs k d hd

theorem Postings.stems_created {allow : Notable A → Prop} (h : Postings allow s s') {k : A × CommitmentId}
    (hj : ¬ allow (.join k.1 k.2)) {d : Delegation} (hd : s'.delegations.lookup k = some d) :
    ∃ d₀, s.delegations.lookup k = some d₀ ∧ d.stake.created = d₀.stake.created := by
  induction h generalizing d with
  | refl => exact ⟨d, hd, rfl⟩
  | tail _ hp ih =>
    obtain ⟨d₁, hd₁, hc₁⟩ := (hp.stems hd).origin.resolve_right hj
    obtain ⟨d₀, hd₀, hc₀⟩ := ih hd₁
    exact ⟨d₀, hd₀, hc₁.trans hc₀⟩

theorem step_currentCycle (s : State T) {op : Op T} (h : op ≠ .block) :
    (step s op).currentCycle = s.currentCycle := by
  have ht := step_metered s op
  generalize step s op = s' at ht ⊢
  cases ht with
  | kept hm => exact congrArg Meter.currentCycle hm
  | create call =>
    obtain ⟨_, _, _, rfl⟩ := doCreatePool_writes call
    rfl
  | modify call =>
    obtain ⟨_, _, rfl⟩ := modifyPool_writes call
    rfl
  | heartbeat =>
    exact commit_induction (P := fun mt => mt.currentCycle = s.currentCycle) (fun _ _ h => h)
      (fun _ _ _ _ _ h => h) (fun _ _ _ _ _ h => h) s _ _ _ _ rfl
  | block => exact absurd rfl h

theorem step_elder {epoch : ℕ} (s : State T) (op : Op T) (hj : JoinsBefore c epoch s op)
    (hs : Regular s ∧ Elder c epoch s) : Regular (step s op) ∧ Elder c epoch (step s op) := by
  obtain ⟨hr, hb, he⟩ := hs
  have hp := step_postings_makes s op hr
  refine ⟨hp.regular hr, hp.invariant (fun _ _ hp => hp.born) hb, fun hn k d hd hk => ?_⟩
  by_cases ho : op = .block
  · subst ho
    obtain ⟨w, _, _, _, -, hq⟩ := onInitialize_writes s
    rw [step, hq] at hn hd ⊢
    -- a block starts an epoch, which all delegations are older than, or it changes nothing
    have hold := hb k d hd
    simp only [nextCycle] at hn ⊢
    split_ifs at hn ⊢
    · exact Nat.lt_succ_of_le hold
    · exact Nat.lt_succ_of_le hold
    · exact he hn k d hd hk
  · rw [step_currentCycle s ho] at hn ⊢
    have hm : ¬ Makes s op (.join k.1 k.2) := fun hm => hj hn k hm hk
    obtain ⟨d₀, hd₀, hc⟩ := hp.stems_created hm hd
    exact hc ▸ he hn k d₀ hd₀ hk

/-- A slash whose index is read by the remembered weight only, in an epoch without new delegations
to the commitment, charges the delegators at most their part, none that came later, and no later run
without a slash charges more. -/
theorem slash_spread_le_delegationsShare (w : T.World) (before after : List (Op T))
    (hs : s = reached w before)
    (hc : T.commitmentIdFor s.world committer = some c)
    (h : dispatch s (.signed slasher) (.slash committer) = .ok s')
    (hjoins : Along step (JoinsBefore c s.currentCycle.epoch) (State.genesis T w) before)
    (hremembered : SlashRemembered s c) (hafter : ∀ op ∈ after, op.isSlash = false) :
    StorageMap.sum s.delegations (slashBetween s s' c) ≤ delegationsShare s c ∧
    (∀ k d, s.delegations.lookup k = some d → s.currentCycle.epochStart ≤ d.stake.created →
      slashBetween s s' c k d = 0) ∧
    ∀ t, perTokenDecimals * tally (chargedIn c t) (run step s' after) ≤
      perTokenDecimals * tally (chargedIn c t) s' + slashClaims s c t +
        perTokenDecimals * delegationsShare s c := by
  have hu : PoolsCurrent s :=
    hs ▸ run_invariant' step_poolsCurrent before (genesis_poolsCurrent w)
  simp only [dispatch, dispatchSigned, ok_iff] at h
  obtain ⟨c', hc', hl⟩ := h
  rw [hc, Option.some.injEq] at hc'
  subst hc'
  obtain ⟨cm, stake, hm, ht, hr⟩ := doSlash_raised hu hl
  refine ⟨hr.sum_slashBetween_le hremembered hm ht, ?_, ?_⟩
  · intro k d hd ha
    have he : Elder c s.currentCycle.epoch (reached w before) :=
      (run_invariant step_elder hjoins ⟨genesis_regular T w,
        fun k d hd => by simp [State.genesis] at hd, fun _ k d hd => by simp [State.genesis] at hd⟩).2
    rw [← hs] at he
    have hk : k.2 ≠ c := fun hk => (he.elder rfl k d hd hk).not_ge ha
    rw [slashBetween, if_neg hk]
  · intro t
    have ho : Moves (fun _ => True) s s' := doSlash_moves hl trivial (.inr trivial)
    have hs' : PoolsCurrent s' := Moves.invariant (fun _ _ => Move.poolsCurrent) ho hu
    have hla := (run_invariant (step_slashPotential c t) (Along.of_mem hafter)
      ⟨hs', le_refl (slashSide.potential t s' c)⟩).2
    have how := hr.mul_owed_le hremembered hm ht t
    rw [chargedIn_eq_taken]
    change 1 * _ + _ ≤ 1 * _ + _ at hla
    have hh : tally (slashSide.taken t c) (run step s' after) ≤
        tally (slashSide.taken t c) s' + slashSide.owed t s' c := by omega
    calc perTokenDecimals * tally (slashSide.taken t c) (run step s' after)
        ≤ perTokenDecimals * (tally (slashSide.taken t c) s' + slashSide.owed t s' c) :=
          Nat.mul_le_mul_left _ hh
      _ = perTokenDecimals * tally (slashSide.taken t c) s' +
          perTokenDecimals * slashSide.owed t s' c := Nat.mul_add _ _ _
      _ ≤ _ := by omega

theorem slash_spread_le_after_5 : SlashRemembered (missed 5) 0 ∧
    Along step (JoinsBefore 0 (missed 5).currentCycle.epoch) (State.genesis mock [])
      (opening ++ List.replicate 5 .block) ∧
    StorageMap.sum (missed 5).delegations
        (slashBetween (missed 5) (step (missed 5) (signed 5 (.slash 2))) 0) ≤
      delegationsShare (missed 5) 0 := by
  have hr : SlashRemembered (missed 5) 0 := by decide +kernel
  have ho : (dispatch (missed 5) (.signed 5) (.slash 2)).isOk = true := by decide +kernel
  have hd : mock.commitmentIdFor (missed 5).world 2 = some 0 := by decide +kernel
  have ha : ∀ op : Op mock, op ∈ [.block, signed 4 (.withdrawDelegation 2)] → op.isSlash = false := by
    decide +kernel
  have hj : Along step (JoinsBefore 0 (missed 5).currentCycle.epoch) (State.genesis mock [])
      (opening ++ List.replicate 5 .block) := by decide +kernel
  exact ⟨hr, hj, (slash_spread_le_delegationsShare _ _ _ rfl hd (dispatch_eq_step ho) hj hr ha).1⟩

def lateDelegation : State mock := step (missed 5) (signed 6 (.delegate 2 (30 * unit) 36 false))

/-- The late delegation is charged for epochs before it, and all delegators together for more than
their part. -/
theorem slash_spread_gt_after_lateDelegation :
    (dispatch lateDelegation (.signed 5) (.slash 2)).isOk = true ∧
    delegationsShare lateDelegation 0 = 3750000000001 ∧
    StorageMap.sum lateDelegation.delegations
      (slashBetween lateDelegation (step lateDelegation (signed 5 (.slash 2))) 0) = 6000000000000 ∧
    (lateDelegation.delegations.lookup (6, 0)).map
      (slashBetween lateDelegation (step lateDelegation (signed 5 (.slash 2))) 0 (6, 0)) =
      some 2250000000000 ∧
    (lateDelegation.delegations.lookup (6, 0)).map
      (decide <| lateDelegation.currentCycle.epochStart ≤ ·.stake.created) = some true := by
  decide +kernel

end Acurast.Compute
