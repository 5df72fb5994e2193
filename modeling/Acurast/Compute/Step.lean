import Acurast.Compute.Heartbeat

/-! Every step of the pallet as moves, with the conditions under which the special ones are left
out. -/

namespace Acurast.Compute

open Base

section Writes

variable {A : Type} {T : Config A} {s s' : State T} {who : A} {c : CommitmentId}

theorem inflate_writes (s : State T) : ∃ world, Trades T s.world world ∧
    (inflate s).1 = { s with world } := by
  unfold inflate
  split_ifs
  · exact ⟨_, .refl, rfl⟩
  · dsimp only
    split
    · next w hw => exact ⟨_, .tail (.single .issue) (.resolve hw), rfl⟩
    · exact ⟨_, .single .issue, rfl⟩

theorem storeMetricsReward_writes (s : State T) (x : ℕ) : ∃ computeBasedRewards,
    storeMetricsReward s x = { s with computeBasedRewards } := by
  unfold storeMetricsReward
  split_ifs
  · exact ⟨_, rfl⟩
  · exact ⟨_, rfl⟩

theorem startEpoch_writes (s : State T) : ∃ world computeBasedRewards stakeBasedRewards
    collatorRewards, Trades T s.world world ∧ startEpoch s = { advanceEpoch s with
      world, computeBasedRewards, stakeBasedRewards, collatorRewards } := by
  obtain ⟨w, ht, hn⟩ := inflate_writes (advanceEpoch s)
  obtain ⟨rewards, hs⟩ := storeMetricsReward_writes (inflate (advanceEpoch s)).1
    (inflate (advanceEpoch s)).2.metricsReward
  unfold startEpoch
  dsimp only
  rw [hs, hn]
  split
  · exact ⟨_, _, _, _, .tail ht .onUnbalanced, rfl⟩
  · exact ⟨_, _, _, _, ht, rfl⟩

theorem rewardCollator_writes (s : State T) : ∃ world, Trades T s.world world ∧
    rewardCollator s = { s with world } := by
  unfold rewardCollator
  split_ifs
  · exact ⟨_, .refl, rfl⟩
  · split
    · exact ⟨_, .refl, rfl⟩
    · split
      · next w hw => exact ⟨_, .single (.transfer hw), rfl⟩
      · exact ⟨_, .refl, rfl⟩

def nextCycle (s : State T) : Cycle :=
  let block := s.blockNumber + 1
  if s.currentCycle.epochStart = 0 then ⟨(block - s.currentCycle.epochStart) / T.epoch, block⟩
  else if (block - s.currentCycle.epochStart) % T.epoch = 0 then
    ⟨saturatingAdd 32 s.currentCycle.epoch 1, block⟩
  else s.currentCycle

theorem onInitialize_writes (s : State T) : ∃ world computeBasedRewards stakeBasedRewards
    collatorRewards, Trades T s.world world ∧ onInitialize s = { s with
      blockNumber := s.blockNumber + 1
      currentCycle := nextCycle s
      world, computeBasedRewards, stakeBasedRewards, collatorRewards } := by
  unfold onInitialize nextCycle
  dsimp only
  split_ifs
  · obtain ⟨w, ht, hc⟩ := rewardCollator_writes { s with
      blockNumber := s.blockNumber + 1
      currentCycle := ⟨(s.blockNumber + 1 - s.currentCycle.epochStart) / T.epoch, s.blockNumber + 1⟩ }
    exact ⟨w, _, _, _, ht, hc⟩
  · obtain ⟨w, rewards, budgets, collators, ht, hs⟩ := startEpoch_writes
      { s with blockNumber := s.blockNumber + 1 }
    rw [hs]
    obtain ⟨w', ht', hc⟩ := rewardCollator_writes { advanceEpoch
      { s with blockNumber := s.blockNumber + 1 } with
        world := w
        computeBasedRewards := rewards
        stakeBasedRewards := budgets
        collatorRewards := collators }
    exact ⟨w', _, _, _, ht.trans ht', hc⟩
  · obtain ⟨w, ht, hc⟩ := rewardCollator_writes { s with blockNumber := s.blockNumber + 1 }
    exact ⟨w, _, _, _, ht, hc⟩

theorem nextCycle_started (hs : Started s) : (nextCycle s).epochStart ≠ 0 ∧
    (nextCycle s).epoch < 2 ^ 32 ∧ s.currentCycle.epoch ≤ (nextCycle s).epoch := by
  have hl := hs.lt
  unfold nextCycle
  dsimp only
  split_ifs with ht
  · obtain ⟨hp, hb⟩ := hs.zero ht
    rw [ht, hb, hp]
    exact ⟨Nat.one_ne_zero, (Nat.div_le_self _ _).trans_lt (by decide), Nat.zero_le _⟩
  · simp only [saturatingAdd, maxOf]
    omega
  · exact ⟨ht, hl, le_rfl⟩

variable {m : ManagerId} {list : List ComputeCommitment}

theorem storeCommitment_ok {cm : ComputeCommitment} {counted : Bool}
    (h : storeCommitment s m c cm = .ok (s', counted)) :
    (∃ computeCommitments, s' = { s with computeCommitments }) ∧
      cm.metric ≤ ((sumAt s m cm.poolId).get (s.currentCycle.epoch - 1)).1 := by
  simp only [storeCommitment, ok_iff, checkedSub_eq_some] at h
  obtain ⟨pool, -, last, ⟨-, rfl⟩, -, hl, h⟩ := h
  refine ⟨?_, hl⟩
  split_ifs at h
  · simp only [pure_eq_ok, Prod.mk.injEq] at h
    exact ⟨_, h.1.symm⟩
  · simp only [ok_iff, Prod.mk.injEq] at h
    obtain ⟨-, -, -, -, -, -, rfl, -⟩ := h
    exact ⟨_, rfl⟩

theorem storeCommitments_ok {count : ℕ} (h : storeCommitments m c s list = .ok (s', count)) :
    (∃ computeCommitments, s' = { s with computeCommitments }) ∧ ∀ cm ∈ list,
      cm.metric ≤ ((sumAt s m cm.poolId).get (s.currentCycle.epoch - 1)).1 := by
  induction list generalizing s count with
  | nil =>
    simp only [storeCommitments, pure_eq_ok, Prod.mk.injEq] at h
    exact ⟨⟨_, h.1.symm⟩, by simp⟩
  | cons cm rest ih =>
    simp only [storeCommitments, ok_iff, Prod.exists, Prod.mk.injEq] at h
    obtain ⟨s₁, counted, hs, s₂, n, hr, rfl, -⟩ := h
    obtain ⟨⟨stored, rfl⟩, hl⟩ := storeCommitment_ok hs
    obtain ⟨⟨stored', rfl⟩, hl'⟩ := ih hr
    exact ⟨⟨stored', rfl⟩, List.forall_mem_cons.mpr ⟨hl, hl'⟩⟩

theorem validateMaxMetricStoreCommitments_ok
    (h : validateMaxMetricStoreCommitments s c list = .ok s') :
    (∃ computeCommitments, s' = { s with computeCommitments }) ∧
      ∃ m, s.backings.lookup c = some m ∧ ∀ commitment ∈ list,
        commitment.metric ≤ ((sumAt s m commitment.poolId).get (s.currentCycle.epoch - 1)).1 := by
  simp only [validateMaxMetricStoreCommitments, ok_iff, Prod.exists] at h
  obtain ⟨m, hm, s₁, count, hs, -, -, rfl⟩ := h
  exact ⟨(storeCommitments_ok hs).1, m, hm, (storeCommitments_ok hs).2⟩

theorem doCreatePool_writes {name : MetricPoolName} {ratio : Perquintill}
    {config : List MetricPoolConfigValue} (h : doCreatePool s name ratio config = .ok s') :
    ∃ lastMetricPoolId metricPools metricPoolLookup,
      s' = { s with lastMetricPoolId, metricPools, metricPoolLookup } := by
  simp only [doCreatePool, ok_iff] at h
  obtain ⟨-, -, -, -, id, -, -, -, rfl⟩ := h
  exact ⟨_, _, _, rfl⟩

theorem modifyPool_writes {p : PoolId} {name : Option MetricPoolName}
    {ratio : Option (ℕ × Perquintill)} {config : Option ModifyMetricPoolConfig}
    (h : modifyPool s p name ratio config = .ok s') : ∃ metricPools metricPoolLookup,
      s' = { s with metricPools, metricPoolLookup } := by
  simp only [modifyPool, renamePool, ok_iff, whenSome_eq_ok, Prod.exists, Prod.mk.injEq] at h
  obtain ⟨pool, -, s₁, pool₁, hn, r, -, -, -, rfl⟩ := h
  rcases hn with ⟨-, rfl, -⟩ | ⟨name, -, -, -, rfl, -⟩
  · exact ⟨_, _, rfl⟩
  · exact ⟨_, _, rfl⟩

theorem doGetOrCreateCommitmentId_cases
    (h : doGetOrCreateCommitmentId s who = .ok (s', c)) : s' = s ∨
      ∃ nextCommitmentId world, T.commitmentIdFor s.world who = none ∧
        T.createCommitmentId s.world c who = some world ∧
        s' = { s with nextCommitmentId, world } := by
  unfold doGetOrCreateCommitmentId at h
  split at h
  · simp only [pure_eq_ok, Prod.mk.injEq] at h
    exact .inl h.1.symm
  · next hn =>
    simp only [ok_iff, Prod.mk.injEq] at h
    obtain ⟨next, -, w, hw, rfl, rfl⟩ := h
    exact .inr ⟨next, w, hn, hw, rfl⟩

end Writes

variable {A : Type} [DecidableEq A] {T : Config A} {allow : Special → Prop} {s s' : State T}
  {who : A} {c : CommitmentId}

theorem onInitialize_moves (s : State T) (hm : allow .measure) :
    Moves allow s (onInitialize s) := by
  obtain ⟨w, rewards, budgets, collators, -, hq⟩ := onInitialize_writes s
  rw [hq]
  refine Move.moves (.rest ⟨rfl, rfl, rfl, rfl, rfl, rfl⟩ ⟨?_, ?_, ?_⟩ (.inr rfl) (.inr hm))
  · intro hs
    obtain ⟨ht, hl, -⟩ := nextCycle_started hs
    exact ⟨fun hz => absurd hz ht, hl⟩
  · exact fun hs => (nextCycle_started hs).2.2
  · exact fun _ _ hle => ⟨le_rfl, hle⟩

theorem Counted.move {s₁ : State T} (h : Counted s s₁) (processors : StorageMap A ProcessorState)
    (hm : allow .measure) : Move allow s { s₁ with processors } := by
  obtain ⟨_, _, _, rfl⟩ := h.writes
  exact .rest ⟨rfl, rfl, rfl, rfl, rfl, rfl⟩ ⟨fun hs => ⟨hs.zero, hs.lt⟩, fun _ => le_rfl, h.sums⟩ (.inl rfl) (.inr hm)

theorem Scored.move {e weight : ℕ} {cm cm' : Commitment} {es : List (Entry A)}
    (h : Scored e weight c cm cm' es) (hf : s.commitments.lookup c = some cm)
    (hr : es = [] ∨ allow .credit) (hm : allow .measure) : Move allow s { s with
      commitments := s.commitments.insert c cm'
      history := es ++ s.history } := by
  rcases h.cases with ⟨ha, hg, rfl⟩ | ⟨st, r, hc, rfl⟩
  · exact .adjust hf ha (.agree hf hg) (.inr hm)
  · exact .credit hf hc (hr.resolve_left (List.cons_ne_nil _ _))

theorem commit_moves (s : State T) (proc manager : A) (m : ManagerId)
    (ms : List MetricInput) (hc : allow .credit) (hm : allow .measure) :
    Moves allow s (commit s proc manager m ms).1 := by
  obtain ⟨s₁, procs, s₂, w, rewards, ho, hr, -, hq⟩ :=
    commit_writes s proc manager m ms
  rw [hq]
  refine .step (ho.move procs hm) ?_
  cases hr with
  | nothing => exact Aside.moves (.of_eq rfl) (.inr hm)
  | scored hb hf hfr hs =>
    exact .step (hs.move hf (.inr hc) hm) (Aside.moves (.of_eq rfl) (.inr hm))

def RepaysNothing (s : State T) : Op T → Prop
  | .dispatch (.signed who) (.delegateMore committer _ _ _) =>
    ∀ c ∈ T.commitmentIdFor s.world committer, pendingReward s who c = 0
  | .dispatch (.signed who) (.redelegate oldCommitter _) =>
    ∀ c ∈ T.commitmentIdFor s.world oldCommitter, pendingReward s who c = 0
  | _ => True

def SlashCovered (s : State T) : Op T → Prop
  | .dispatch (.signed _) (.slash committer) =>
    ∀ c ∈ T.commitmentIdFor s.world committer, committerShare s c ≤ stakeAmount s c
  | _ => True

instance (s : State T) (op : Op T) : Decidable (RepaysNothing s op) := by
  unfold RepaysNothing
  split <;> infer_instance

instance (s : State T) (op : Op T) : Decidable (SlashCovered s op) := by
  unfold SlashCovered
  split <;> infer_instance

def Op.isSlash : Op T → Bool
  | .dispatch _ (.slash _) => true
  | _ => false

def Op.isHeartbeat : Op T → Bool
  | .heartbeat .. => true
  | _ => false

def Op.acceptsOffer : Op T → Bool
  | .dispatch _ (.acceptBackingOffer _) => true
  | _ => false

def Op.measures : Op T → Bool
  | .dispatch _ (.createPool ..) | .dispatch _ (.modifyPool ..) => true
  | .dispatch _ (.offerBacking _) | .dispatch _ .withdrawBackingOffer => true
  | .dispatch _ (.acceptBackingOffer _) | .heartbeat .. | .block => true
  | _ => false

variable {clauses : Clause → Prop} {committer owner : A} {call : Call A}

theorem Permits.of_all {op : Op T} (h : ∀ k, clauses k) : Permits clauses s op :=
  ⟨fun _ _ => h _, fun _ _ => h _⟩

structure Allowed (allow : Special → Prop) (s : State T) (op : Op T) : Prop where
  repay : RepaysNothing s op ∨ allow .repay := by simp
  overslash : SlashCovered s op ∨ allow .overslash := by simp
  slash : op.isSlash = false ∨ allow .slash := by simp
  credit : op.isHeartbeat = false ∨ allow .credit := by simp
  reback : op.acceptsOffer = false ∨ allow .reback := by simp
  measure : op.measures = false ∨ allow .measure := by simp
  permits : Permits (allow ∘ .clause) s op := by exact .of_all (by simp)

theorem acceptBackingOffer_moves (h : acceptBackingOffer s who owner = .ok s')
    (hre : allow .reback) (hm : allow .measure) : Moves allow s s' := by
  simp only [acceptBackingOffer, releaseBacking, ok_iff, whenSome_eq_ok, Prod.exists] at h
  obtain ⟨m, -, s₁, hr, of, -, -, -, s₂, c, hd, rfl⟩ := h
  have hl : Moves allow s s₁ := by
    rcases hr with ⟨-, rfl⟩ | ⟨c, -, -, -, rfl⟩
    · exact .refl s
    · exact Move.moves (.reback hre)
  have hc : Aside s₁ s₂ := by
    rcases doGetOrCreateCommitmentId_cases hd with rfl | ⟨next, w, -, -, rfl⟩
    · exact .of_eq rfl
    · exact .of_eq rfl
  have hb : Move allow s₂ { s₂ with backings := s₂.backings.insert c m } := .reback hre
  exact hl.trans ((hc.moves (.inr hm)).trans (.step hb (Aside.moves (.of_eq rfl) (.inr hm))))

theorem dispatchSigned_moves (h : dispatchSigned s who call = .ok s')
    (ha : Allowed allow s (.dispatch (.signed who) call)) : Moves allow s s' := by
  cases call with
  | createPool | modifyPool | enableInflation => cases h
  | offerBacking manager =>
    simp only [dispatchSigned, offerBacking, ok_iff] at h
    obtain ⟨-, -, m, -, rfl⟩ := h
    exact Aside.moves (.of_eq rfl) (ha.measure.imp_left (by rintro ⟨⟩))
  | withdrawBackingOffer =>
    simp only [dispatchSigned, withdrawBackingOffer, ok_iff] at h
    obtain ⟨m, -, rfl⟩ := h
    exact Aside.moves (.of_eq rfl) (ha.measure.imp_left (by rintro ⟨⟩))
  | acceptBackingOffer owner =>
    exact acceptBackingOffer_moves h (ha.reback.resolve_left (by rintro ⟨⟩))
      (ha.measure.resolve_left (by rintro ⟨⟩))
  | commitCompute =>
    simp only [dispatchSigned, commitCompute, ok_iff] at h
    obtain ⟨c, -, s₁, hs, s₂, ht, -, -, rfl⟩ := h
    obtain ⟨⟨stored, rfl⟩, -⟩ := validateMaxMetricStoreCommitments_ok hs
    refine Moves.trans ?_ (stakeFor_ok ht ha.permits.stake)
    exact Aside.moves (.of_eq rfl) (.inl rfl)
  | stakeMore =>
    simp only [dispatchSigned, stakeMore, ok_iff, whenSome_eq_ok] at h
    obtain ⟨c, -, s₁, hs, s₂, ht, -, -, rfl⟩ := h
    refine Moves.trans ?_ (stakeMoreFor_ok ht ha.permits.longer)
    rcases hs with ⟨-, rfl⟩ | ⟨list, -, hs⟩
    · exact .refl s
    · obtain ⟨⟨stored, rfl⟩, -⟩ := validateMaxMetricStoreCommitments_ok hs
      exact Aside.moves (.of_eq rfl) (.inl rfl)
  | cooldownComputeCommitment =>
    simp only [dispatchSigned, ok_iff] at h
    obtain ⟨c, -, h⟩ := h
    exact cooldownCommitmentFor_ok h
  | endComputeCommitment =>
    simp only [dispatchSigned, ok_iff] at h
    obtain ⟨c, -, h⟩ := h
    exact endCommitmentFor_ok h
  | delegate =>
    simp only [dispatchSigned, delegate, ok_iff] at h
    obtain ⟨c, -, s₁, h, -, -, rfl⟩ := h
    exact delegateFor_ok h
  | cooldownDelegation =>
    simp only [dispatchSigned, ok_iff] at h
    obtain ⟨c, -, h⟩ := h
    exact cooldownDelegationFor_ok h
  | redelegate =>
    simp only [dispatchSigned, ok_iff] at h
    obtain ⟨old, hold, new, -, h⟩ := h
    exact redelegateFor_ok h (ha.repay.imp_left fun hr => hr old hold)
  | endDelegation | kickOut =>
    simp only [dispatchSigned, ok_iff, Prod.exists] at h
    obtain ⟨c, -, s₁, r, h, rfl⟩ := h
    exact (endDelegationFor_ok allow h).1
  | slash =>
    simp only [dispatchSigned, ok_iff] at h
    obtain ⟨c, hc, h⟩ := h
    exact doSlash_moves h (ha.slash.resolve_left (by rintro ⟨⟩))
      (ha.overslash.imp_left fun ho => ho c hc)
  | withdrawDelegation =>
    simp only [dispatchSigned, ok_iff, Prod.exists] at h
    obtain ⟨c, -, s₁, r, h, rfl⟩ := h
    exact (withdrawDelegationFor_ok allow h).1
  | withdrawCommitment =>
    simp only [dispatchSigned, ok_iff, Prod.exists] at h
    obtain ⟨c, -, s₁, r, h, rfl⟩ := h
    exact withdrawCommitterFor_ok h
  | delegateMore =>
    simp only [dispatchSigned, delegateMore, ok_iff] at h
    obtain ⟨c, hc, s₁, h, -, -, rfl⟩ := h
    exact delegateMoreFor_ok h (ha.repay.imp_left fun hr => hr c hc)
  | compoundDelegation =>
    simp only [dispatchSigned, compoundDelegation, ok_iff] at h
    obtain ⟨c, -, d, -, -, -, h⟩ := h
    exact compoundDelegator_ok h
  | compoundStake =>
    simp only [dispatchSigned, compoundStake, ok_iff] at h
    obtain ⟨c, -, cm, -, st, -, -, -, h⟩ := h
    exact compoundCommitter_ok h

theorem dispatch_moves {o : Origin A} (h : dispatch s o call = .ok s')
    (ha : Allowed allow s (.dispatch o call)) : Moves allow s s' := by
  unfold dispatch at h
  split at h
  · simp only [ok_iff] at h
    obtain ⟨-, -, h⟩ := h
    obtain ⟨_, _, _, rfl⟩ := doCreatePool_writes h
    exact Aside.moves (.of_eq rfl) (ha.measure.imp_left (by rintro ⟨⟩))
  · simp only [ok_iff] at h
    obtain ⟨-, -, h⟩ := h
    obtain ⟨_, _, rfl⟩ := modifyPool_writes h
    exact Aside.moves (.of_eq rfl) (ha.measure.imp_left (by rintro ⟨⟩))
  · simp only [ok_iff] at h
    obtain ⟨-, -, rfl⟩ := h
    exact Aside.moves (.of_eq rfl) (.inl rfl)
  · split at h
    · cases h
    · exact dispatchSigned_moves h ha

theorem step_moves (s : State T) (op : Op T) (ha : Allowed allow s op) :
    Moves allow s (step s op) := by
  cases op with
  | dispatch o call =>
    simp only [step]
    split
    · next s' h => exact dispatch_moves h ha
    · exact .refl s
  | heartbeat proc manager m ms =>
    exact commit_moves s proc manager m ms (ha.credit.resolve_left (by rintro ⟨⟩))
      (ha.measure.resolve_left (by rintro ⟨⟩))
  | block => exact onInitialize_moves s (ha.measure.resolve_left (by rintro ⟨⟩))
  | outside w => exact Moves.world rfl

theorem step_terms (s : State T) (op : Op T) (hp : Permits clauses s op) :
    Amendments T clauses s.terms (step s op).terms :=
  let allow : Special → Prop := fun
    | .clause k => clauses k
    | _ => True
  have hm : Moves allow s (step s op) := step_moves s op ⟨.inr trivial, .inr trivial,
    .inr trivial, .inr trivial, .inr trivial, .inr trivial, hp⟩
  hm.terms

theorem acceptBackingOffer_meter (h : acceptBackingOffer s who owner = .ok s') :
    s'.meter = s.meter := by
  simp only [acceptBackingOffer, releaseBacking, ok_iff, whenSome_eq_ok, Prod.exists] at h
  obtain ⟨m, -, s₁, hr, of, -, -, -, s₂, c, hd, rfl⟩ := h
  have hre : s₁.meter = s.meter := by
    rcases hr with ⟨-, rfl⟩ | ⟨c, -, -, -, rfl⟩
    · rfl
    · rfl
  refine Eq.trans ?_ hre
  rcases doGetOrCreateCommitmentId_cases hd with rfl | ⟨next, w, -, -, rfl⟩
  · rfl
  · rfl

/-- What an account's call does to the backings: nothing, unless it makes, takes back or accepts an
offer. -/
inductive Backs (s : State T) : State T → Prop
  | kept {s' : State T} (backing : s'.backing = s.backing) : Backs s s'
  | offer {who : A} {m : ManagerId} (free : T.commitmentIdFor s.world who = none) :
      Backs s { s with backingOffers := s.backingOffers.insert who m }
  | withdraw {who : A} : Backs s { s with backingOffers := s.backingOffers.erase who }
  | accept {who committer : A} {s' : State T} (call : acceptBackingOffer s who committer = .ok s') :
      Backs s s'

theorem dispatchSigned_fixed (h : dispatchSigned s who call = .ok s') :
    s'.meter = s.meter ∧ Backs s s' := by
  have hf : Op.measures (.dispatch (.signed who) call : Op T) = false →
      s'.meter = s.meter ∧ Backs s s' := by
    intro ho
    have ha : Op.acceptsOffer (.dispatch (.signed who) call : Op T) = false := by
      cases call <;> first | rfl | cases ho
    have hm : Moves (fun k => k ≠ .measure ∧ k ≠ .credit ∧ k ≠ .reback) s s' :=
      dispatchSigned_moves h { measure := .inl ho, credit := .inl rfl, reback := .inl ha }
    have hq := hm.fixed (by simp) (by simp) (by simp)
    exact ⟨congrArg Prod.fst hq, .kept (congrArg Prod.snd hq)⟩
  cases call with
  | createPool | modifyPool => cases h
  | offerBacking manager =>
    simp only [dispatchSigned, offerBacking, ok_iff] at h
    obtain ⟨-, hr, m, -, rfl⟩ := h
    exact ⟨rfl, .offer hr⟩
  | withdrawBackingOffer =>
    simp only [dispatchSigned, withdrawBackingOffer, ok_iff] at h
    obtain ⟨m, -, rfl⟩ := h
    exact ⟨rfl, .withdraw⟩
  | acceptBackingOffer owner => exact ⟨acceptBackingOffer_meter h, .accept h⟩
  | _ => exact hf rfl

/-- What a step does to the meter: a call of an account nothing; the rest is the creation or change
of a pool, a heartbeat, or the start of a block. -/
inductive Metered (s : State T) : Op T → State T → Prop
  | kept {op : Op T} {s' : State T} (meter : s'.meter = s.meter) : Metered s op s'
  | create {origin : Origin A} {name : MetricPoolName} {ratio : Perquintill}
      {config : List MetricPoolConfigValue} {s' : State T}
      (call : doCreatePool s name ratio config = .ok s') :
      Metered s (.dispatch origin (.createPool name ratio config)) s'
  | modify {origin : Origin A} {p : PoolId} {name : Option MetricPoolName}
      {ratio : Option (ℕ × Perquintill)} {config : Option ModifyMetricPoolConfig} {s' : State T}
      (call : modifyPool s p name ratio config = .ok s') :
      Metered s (.dispatch origin (.modifyPool p name ratio config)) s'
  | heartbeat {processor manager : A} {m : ManagerId} {metrics : List MetricInput} :
      Metered s (.heartbeat processor manager m metrics) (commit s processor manager m metrics).1
  | block : Metered s .block (onInitialize s)

theorem step_metered (s : State T) (op : Op T) : Metered s op (step s op) := by
  cases op with
  | heartbeat proc manager m ms => exact .heartbeat
  | block => exact .block
  | outside w => exact .kept rfl
  | dispatch o call =>
    cases h : dispatch s o call with
    | error e =>
      rw [step, h]
      exact .kept rfl
    | ok s' =>
      rw [step, h]
      unfold dispatch at h
      split at h
      · simp only [ok_iff] at h
        obtain ⟨-, -, h⟩ := h
        exact .create h
      · simp only [ok_iff] at h
        obtain ⟨-, -, h⟩ := h
        exact .modify h
      · simp only [ok_iff] at h
        obtain ⟨-, -, rfl⟩ := h
        exact .kept rfl
      · split at h
        · cases h
        · exact .kept (dispatchSigned_fixed h).1

end Acurast.Compute
