import Acurast.Compute.LiveTotals
import Acurast.Compute.Pools

/-! Every delegation is accrued at the indices of the stake it was made to. A record beside the run notes
this stake and the indices it had when it was last in place. -/

namespace Acurast.Compute

open Base

/-- What the run has shown of the generations: the generation each delegation was made to, and the
indices of each generation. -/
structure Origins (A : Type) where
  madeTo : A × CommitmentId → ℕ
  earned : CommitmentId → ℕ → PoolReward

theorem Pooled.eq_current {cm : Commitment} {time : ℕ} {e : ℕ × PoolReward} (hs : Pooled s)
    (hc : s.commitments.lookup c = some cm) (he : indexAt s c time = some e)
    (ht : e.1 = cm.poolRewards.current.1) : e = cm.poolRewards.current := by
  rw [indexAt, hc, Option.bind_some, MemoryBuffer.latestEntry] at he
  split_ifs at he with hle
  · exact (Option.some.inj he).symm
  · cases hp : cm.poolRewards.past with
    | none =>
      rw [hp] at he
      cases he
    | some p =>
      have hl := (hs c cm hc).past p hp
      simp only [hp] at he
      split_ifs at he
      obtain rfl := Option.some.inj he
      exact absurd ht hl.ne

variable {A : Type} [DecidableEq A] {T : Config A} {allow : Notable A → Prop} {s s' : State T}
  {o : Origins A}

def Origins.track (o : Origins A) (s : State T) (op : Op T) : Origins A where
  madeTo k :=
    if madeDelegation s op = some k then (generation (step s op) k.2).getD 0 else o.madeTo k
  earned c g :=
    if generation (step s op) c = some g then
      ((step s op).commitments.lookup c).elim default (·.poolRewards.current.2)
    else o.earned c g

def origins (T : Config A) (w : T.World) (ops : List (Op T)) : Origins A :=
  recordRun step Origins.track (State.genesis T w) ⟨fun _ => 0, fun _ _ => default⟩ ops

variable {c : CommitmentId} {who : A} {k : A × CommitmentId} {op : Op T}

theorem delegateFor_made {x period : ℕ} {auto : Bool}
    (h : delegateFor s who c x period auto = .ok s') : ∃ d,
      s'.delegations.lookup (who, c) = some d ∧ d.stake.created = s'.blockNumber ∧
      (generation s' c).isSome := by
  simp only [delegateFor, ok_iff, asU128_eq_ok] at h
  obtain ⟨cm, hc, s₁, hl, w, -, r, -, slash, -, -, -, _, ⟨rfl, -⟩, _, ⟨rfl, -⟩, cm',
    hj, s₂, ht, total, -, -, -, rfl⟩ := h
  obtain ⟨-, rfl⟩ := updateTotalStake_add.mp ht
  obtain rfl := lockFunds_ok hl
  obtain ⟨-, -, -, -, st, hs, -⟩ := checkDelegation_ok hc
  simp only [joinCommitment, ok_iff] at hj
  obtain ⟨weights, -, rfl⟩ := hj
  refine ⟨_, AList.lookup_insert _, rfl, ?_⟩
  simp only [generation, AList.lookup_insert, Option.bind_some, hs, Option.map_some,
    Option.isSome_some]

theorem delegateMoreFor_made {extra : ℕ} {per : Option ℕ} {auto : Option Bool}
    (h : delegateMoreFor s who c extra per auto = .ok s') : ∃ d,
      s'.delegations.lookup (who, c) = some d ∧ d.stake.created = s'.blockNumber ∧
      (generation s' c).isSome := by
  simp only [delegateMoreFor, ok_iff, Prod.exists] at h
  obtain ⟨d, -, -, -, cm, -, st, -, -, -, x, -, -, -, s₁, r, -, s₂, -, hd⟩ := h
  exact delegateFor_made hd

theorem dispatchSigned_made {call : Call A} (h : dispatchSigned s who call = .ok s')
    (hk : delegatee s who call = some k) : ∃ d,
      s'.delegations.lookup k = some d ∧ d.stake.created = s'.blockNumber ∧
      (generation s' k.2).isSome := by
  cases call with
  | delegate owner x per auto =>
    simp only [dispatchSigned, delegate, ok_iff] at h
    obtain ⟨c, hc, s₁, h, -, -, rfl⟩ := h
    rw [delegatee, hc, Option.map_some, Option.some.injEq] at hk
    exact hk ▸ delegateFor_made h
  | delegateMore owner extra per auto =>
    simp only [dispatchSigned, delegateMore, ok_iff] at h
    obtain ⟨c, hc, s₁, h, -, -, rfl⟩ := h
    rw [delegatee, hc, Option.map_some, Option.some.injEq] at hk
    exact hk ▸ delegateMoreFor_made h
  | redelegate old new =>
    simp only [dispatchSigned, redelegateFor, ok_iff, Prod.exists] at h
    obtain ⟨c, -, c', hc', d, -, -, -, cm, -, st, -, -, -, -, -, s₁, r, -, s₂, -, h⟩ := h
    rw [delegatee, hc', Option.map_some, Option.some.injEq] at hk
    exact hk ▸ delegateFor_made h
  | compoundDelegation owner delegator =>
    simp only [dispatchSigned, compoundDelegation, compoundDelegator, ok_iff, Prod.exists] at h
    obtain ⟨c, hc, d, -, -, -, s₁, r, -, h⟩ := h
    rw [delegatee, hc, Option.map_some, Option.some.injEq] at hk
    exact hk ▸ delegateMoreFor_made h
  | _ => cases hk

theorem madeDelegation_made (h : madeDelegation s op = some k) :
    ∃ d, (step s op).delegations.lookup k = some d ∧ d.stake.created = (step s op).blockNumber ∧
      (generation (step s op) k.2).isSome := by
  cases op with
  | dispatch origin call =>
    cases origin with
    | root => cases h
    | signed who =>
      rw [madeDelegation] at h
      split_ifs at h with ho
      have hs := dispatch_eq_step ho
      generalize step s (.dispatch (.signed who) call) = s' at hs ⊢
      unfold dispatch at hs
      split at hs
      · cases h
      · cases h
      · cases h
      · exact dispatchSigned_made hs h
  | _ => cases h

theorem Posting.generation_eq (h : Posting allow s s') (c : CommitmentId) :
    generation s' c = generation s c ∨ generation s c = none ∨ allow .unstake := by
  have hn : ∀ {s' : State T} {c' : CommitmentId} {cm cm' : Commitment},
      s.commitments.lookup c' = some cm → s'.commitments = s.commitments.insert c' cm' →
      cm'.stake.map (·.created) = cm.stake.map (·.created) → generation s' c = generation s c := by
    intro s' c' cm cm' hm ho ht
    rw [generation, generation, ho, lookup_insert_eq]
    split_ifs with hq
    · rw [hq, hm, Option.bind_some, Option.bind_some, ht]
    · rfl
  cases h with
  | rest hl => exact .inl (by simp only [generation, hl.commitments])
  | outside | create | settle => exact .inl rfl
  | @idle c' cm lastScoringEpoch hf hu =>
    have ht : ({ cm with lastScoringEpoch } : Commitment).stake = cm.stake := rfl
    exact .inl (hn hf rfl (by rw [ht]))
  | keep hf hk =>
    exact .inl (hn hf rfl (by rw [hk.staked, hk.staked', Option.map_some,
      Option.map_some, hk.created]))
  | restake hf hk =>
    exact .inl (hn hf rfl (by rw [hk.staked, hk.staked', Option.map_some,
      Option.map_some, hk.created]))
  | @stake who c' cm stake hs =>
    by_cases hq : c = c'
    · refine .inr (.inl ?_)
      rw [generation, hq, hs.unstaked, Option.map_none]
    · refine .inl ?_
      simp only [generation, AList.lookup_insert_ne hq]
  | unstake hf hsta hu hp started hen owns hun => exact .inr (.inr hun)
  | lower hf hd hr same => exact .inl (hn hf rfl (by rw [same.stake]))
  | cool hf hd hr same => exact .inl (hn hf rfl (by rw [same.stake]))
  | leave hf hd same => exact .inl (hn hf rfl (by rw [same.stake]))
  | join hf hsta ha free hc hre hse same =>
    exact .inl (hn hf rfl (by rw [same.stake]))

/-- Inside an operation: the delegations that it does not make read the entry of their generation,
which holds what the record has, unless it belongs to the present stake and may have been raised. -/
def Traces (allow : Notable A → Prop) (o : Origins A) (s : State T) : Prop :=
  ∀ k d, s.delegations.lookup k = some d → ¬ allow (.join k.1 k.2) →
    ∀ e ∈ indexAt s k.2 d.stake.created, e.1 = o.madeTo k ∧
      (¬ allow .raise ∨ generation s k.2 ≠ some e.1 → e.2 = o.earned k.2 e.1)

theorem Posting.traces (h : Posting allow s s') (hb : ¬ allow .sameBlock)
    (hen : allow .unstake → ¬ allow .raise) (hp : Pooled s) (hs : Traces allow o s) :
    Traces allow o s' := by
  rintro ⟨who, c⟩ d' hd' hj e' he'
  obtain ⟨d, hd, hcr⟩ := (h.stems hd').origin.resolve_right hj
  rw [hcr] at he'
  obtain ⟨e, he, ht, -, hv⟩ := h.continues hb hp hd e' he'
  obtain ⟨hm, ha⟩ := hs _ d hd hj e he
  refine ⟨ht.trans hm, fun hc => ?_⟩
  rcases hv with rfl | ⟨hr, hg⟩
  · refine ha ?_
    rcases hc with hr | hn
    · exact .inl hr
    -- the entry is not the one of the present stake, and was not before either
    · rcases h.generation_eq c with hsa | ho | hu
      · exact .inr (hsa ▸ hn)
      · refine .inr ?_
        rw [ho]
        exact Option.some_ne_none _ |>.symm
      · exact .inl (hen hu)
  · rcases hc with hno | hn
    · exact absurd hr hno
    · exact absurd (ht ▸ hg) hn

/-- Every delegation reads nothing, or the indices its generation had when it was last in place. -/
def Traced (o : Origins A) (s : State T) : Prop := ∀ k d, s.delegations.lookup k = some d →
  ∀ e ∈ indexAt s k.2 d.stake.created, e = (o.madeTo k, o.earned k.2 (o.madeTo k))

theorem Postings.traces (h : Postings allow s s') (hm : 0 < T.minCooldownPeriod)
    (ha : s'.blockNumber < 2 ^ 32 - 1) (hb : ¬ allow .sameBlock)
    (hn : allow .unstake → ¬ allow .raise) (hr : Priced s) (hs : Traces allow o s) :
    Traces allow o s' := by
  induction h with
  | refl => exact hs
  | tail hbe hp ih =>
    have hl := Nat.lt_of_le_of_lt hp.block_le ha
    have ho := (Postings.priced hbe hm hl hb hr).pooled
    exact hp.traces hb hn ho (ih hl)

/-- What an operation allows when its record is to be kept: it makes the delegation it records, and
only a slash or a heartbeat raises an index. -/
def Tracked (s : State T) (op : Op T) : Notable A → Prop
  | .sameBlock => False
  | .join who c => madeDelegation s op = some (who, c)
  | .raise => op.isSlash = true ∨ op.isHeartbeat = true
  | .unstake => op.endsStake = true
  | _ => True

theorem step_postings_tracked (s : State T) (op : Op T) (hs : Regular s) (ha : Aged s) :
    Postings (Tracked s op) s (step s op) := by
  apply step_postings s op hs
  refine ⟨.inr trivial, fun _ => .inr trivial, .inl ha, fun _ _ => .inr trivial,
    fun k hk => hk, ?_, ?_⟩
  · cases hl : op.isSlash
    · cases hb : op.isHeartbeat
      · exact .inl ⟨rfl, rfl⟩
      · exact .inr (.inr hb)
    · exact .inr (.inl hl)
  · cases hn : op.endsStake
    · exact .inl rfl
    · exact .inr hn

theorem tracked_unstake (h : Tracked s op .unstake) : ¬ Tracked s op .raise := by
  cases op with
  | dispatch origin call =>
    cases call with
    | endComputeCommitment => simp [Tracked, Op.isSlash, Op.isHeartbeat]
    | _ => cases h
  | _ => cases h

theorem Traces.traced (hr : Traces (Tracked s op) o (step s op)) (hs : Priced (step s op)) :
    Traced (o.track s op) (step s op) := by
  rintro ⟨who, c⟩ d hd e he
  have hn : ∀ g, generation (step s op) c = some g → ∃ cm,
      (step s op).commitments.lookup c = some cm ∧ cm.poolRewards.current.1 = g ∧
      (o.track s op).earned c g = cm.poolRewards.current.2 := by
    intro g hg
    obtain ⟨st, ht, rfl⟩ := Option.map_eq_some_iff.mp hg
    obtain ⟨cm, hc, ht⟩ := Option.bind_eq_some_iff.mp ht
    refine ⟨cm, hc, (hs.pooled c cm hc).staked st ht, ?_⟩
    simp only [Origins.track, hg, if_true, hc, Option.elim_some]
  by_cases hm : madeDelegation s op = some (who, c)
  · -- a delegation of this block reads the current entry
    obtain ⟨d', hd', hcr, hsta⟩ := madeDelegation_made hm
    obtain rfl := Option.mem_unique hd hd'
    obtain ⟨g, hg⟩ := Option.isSome_iff_exists.mp hsta
    obtain ⟨cm, hc, hu, ha⟩ := hn g hg
    have hmt : (o.track s op).madeTo (who, c) = g := by
      simp only [Origins.track, hm, if_true, hg, Option.getD_some]
    obtain ⟨st, ht, hg'⟩ := Option.map_eq_some_iff.mp hg
    obtain ⟨cm', hc', ht⟩ := Option.bind_eq_some_iff.mp ht
    have hl : cm.poolRewards.current.1 ≤ d.stake.created := by
      rw [hu, hcr, ← hg']
      exact (hs.dated.stake c cm' st hc' ht).created
    rw [indexAt, hc, Option.bind_some, MemoryBuffer.latestEntry_of_current_le hl] at he
    obtain rfl := Option.some.inj he
    rw [hmt, ha, ← hu]
  · obtain ⟨hti, hv⟩ := hr _ d hd hm e he
    have hmt : (o.track s op).madeTo (who, c) = o.madeTo (who, c) := by
      simp only [Origins.track, hm, if_false]
    rw [hmt, ← hti]
    by_cases hg : generation (step s op) c = some e.1
    · obtain ⟨cm, hc, hu, ha⟩ := hn e.1 hg
      rw [ha, ← hs.pooled.eq_current hc he hu.symm]
    · have ha : (o.track s op).earned c e.1 = o.earned c e.1 := by
        simp only [Origins.track, hg, if_false]
      rw [ha, ← hv (.inr hg)]

theorem Traced.traces (h : Traced o s) : Traces (Tracked s op) o s := by
  intro k d hd _ e he
  rw [h k d hd e he]
  exact ⟨rfl, fun _ => rfl⟩

theorem run_traced (hm : 0 < T.minCooldownPeriod) (w : T.World) (ops : List (Op T))
    (hla : (reached w ops).blockNumber < 2 ^ 32 - 1) :
    Priced (reached w ops) ∧
      Traced (origins T w ops) (reached w ops) := by
  have hk : ∀ (s : State T) (o : Origins A) (op : Op T), True →
      (Regular s ∧ (s.blockNumber < 2 ^ 32 - 1 → Priced s ∧ Traced o s)) →
      Regular (step s op) ∧ ((step s op).blockNumber < 2 ^ 32 - 1 →
        Priced (step s op) ∧ Traced (o.track s op) (step s op)) := by
    rintro s o op - ⟨hr, hs⟩
    have ha := step_postings_any s op hr
    refine ⟨ha.regular hr, fun hl => ?_⟩
    obtain ⟨hp, ht⟩ := hs (Nat.lt_of_le_of_lt ha.block_le hl)
    have ho := step_postings_tracked s op hr hp.dated.aged
    have hb : ¬ Tracked s op .sameBlock := id
    have hp' := ho.priced hm hl hb hp
    exact ⟨hp', (ho.traces hm hl hb tracked_unstake hp ht.traces).traced hp'⟩
  have hg : Priced (State.genesis T w) :=
    ⟨genesis_dated T w, genesis_pooled T w, genesis_charged T w⟩
  refine (recordRun_invariant hk (.of_forall (fun _ _ => trivial) ops)
    ⟨genesis_regular T w, fun _ => ⟨hg, ?_⟩⟩).2 hla
  intro k d hd
  simp [State.genesis] at hd

/-- With a cooldown of at least a block, in every run that ends before the last block number: a
delegation reads the indices its generation had when it was last in place, its slash debt is at most
what its weight was charged there, and `accrueDelegator` never subtracts more than the charge. -/
theorem getLatest_eq_earned (hmin : 0 < T.minCooldownPeriod) (w : T.World) (ops : List (Op T))
    (hlast : (reached w ops).blockNumber < 2 ^ 32 - 1) :
    (∀ who c d cm, (reached w ops).delegations.lookup (who, c) = some d →
      (reached w ops).commitments.lookup c = some cm →
      ∀ pr ∈ cm.poolRewards.getLatest d.stake.created,
        pr = (origins T w ops).earned c ((origins T w ops).madeTo (who, c)) ∧
        d.slashDebt ≤ d.slashWeight * pr.slashPerWeight / perTokenDecimals) ∧
      ∀ s, Within (reached w ops) s → ∀ who c d cm pr charged,
        s.delegations.lookup (who, c) = some d → s.commitments.lookup c = some cm →
        cm.poolRewards.getLatest d.stake.created = some pr →
        slashDebtOf d.slashWeight pr.slashPerWeight = .ok charged →
        (checkedSub charged d.slashDebt).isSome := by
  obtain ⟨hr, ht⟩ := run_traced hmin w ops hlast
  -- what `getLatest` reads is an entry of `indexAt`
  have hre : ∀ {s : State T} {c cm created pr}, s.commitments.lookup c = some cm →
      cm.poolRewards.getLatest created = some pr → ∃ e, indexAt s c created = some e ∧ e.2 = pr := by
    intro s c cm created pr hc hp
    rw [MemoryBuffer.getLatest_eq, Option.map_eq_some_iff] at hp
    rw [indexAt, hc, Option.bind_some]
    exact hp
  refine ⟨fun who c d cm hd hc pr hp => ?_, fun s hw who c d cm pr charged hd hc hp hch => ?_⟩
  · obtain ⟨e, he, rfl⟩ := hre hc hp
    exact ⟨by rw [ht _ d hd e he], hr.charged _ d hd e he⟩
  · have hn : Postings (· ≠ .sameBlock) (reached w ops) s ∧
        s.blockNumber = (reached w ops).blockNumber :=
      hw.postings (run_regular T w ops) (by simp)
    obtain ⟨ho, hb⟩ := hn
    have hh := (ho.priced hmin (hb ▸ hlast) (by simp) hr).charged
    obtain ⟨e, he, rfl⟩ := hre hc hp
    have hl := hh _ d hd e he
    rw [← slashDebtOf_ok hch] at hl
    rw [checkedSub, if_pos hl, Option.isSome_some]

theorem getLatest_of_restaked : ∃ d cm,
    (after restaked).delegations.lookup (4, 0) = some d ∧
      (after restaked).commitments.lookup 0 = some cm ∧
      ∀ pr ∈ cm.poolRewards.getLatest d.stake.created,
        pr = (origins mock [] restaked).earned 0 ((origins mock [] restaked).madeTo (4, 0)) := by
  have hl : (after restaked).blockNumber < 2 ^ 32 - 1 := by
    decide +kernel
  have hd : (after restaked).delegations.lookup (4, 0) ≠ none := by
    decide +kernel
  have hc : (after restaked).commitments.lookup 0 ≠ none := by
    decide +kernel
  obtain ⟨d, hd⟩ := Option.ne_none_iff_exists'.mp hd
  obtain ⟨cm, hc⟩ := Option.ne_none_iff_exists'.mp hc
  exact ⟨d, cm, hd, hc, fun pr hp => ((getLatest_eq_earned (T := mock) (by decide) [] restaked
    hl).1 4 0 d cm hd hc pr hp).1⟩

def hasty : Config ℕ := { mock with minCooldownPeriod := 0 }

/-- Account `4` delegates to the stake of the second block, which is ended in the same block for a
new one, which account `5` delegates to and which is rewarded. -/
def hastyRun : List (Op hasty) :=
  prepared ++ [signed 2 (stakeCallFor 0), beat, .block, signed 4 (.delegate 2 (50 * unit) 0 false),
    signed 2 .cooldownComputeCommitment, signed 2 .endComputeCommitment, signed 2 stakeCall,
    signed 5 (.delegate 2 (50 * unit) 36 false), beat, .block, beat, .block, beat]

/-- The delegation was made to the second block's stake, which earned nothing, and reads the indices
of the third block's. -/
theorem hastyRun_reads_other_generation :
    (origins hasty [] hastyRun).madeTo (4, 0) = 2 ∧ (origins hasty [] hastyRun).earned 0 2 = ⟨0, 0⟩ ∧
      ((run step (State.genesis hasty []) hastyRun).delegations.lookup (4, 0)).bind (fun d =>
        ((run step (State.genesis hasty []) hastyRun).commitments.lookup 0).bind
          (·.poolRewards.getLatest d.stake.created)) =
        some ⟨299657534246590306301369863612252, 0⟩ := by
  decide +kernel

end Acurast.Compute
