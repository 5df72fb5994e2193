import Acurast.Compute.CommitmentPostings

/-! Every step of the pallet as postings, with the conditions under which the irregular ones are
left out. -/

namespace Acurast.Compute

open Base

variable {A : Type} [DecidableEq A] {T : Config A} {allow : Notable A → Prop} {s s' : State T}
  {who : A} {c : CommitmentId}

def slashedDelegation (s : State T) : Op T → Option (A × CommitmentId)
  | .dispatch (.signed who) (.withdrawDelegation committer)
  | .dispatch (.signed who) (.endDelegation committer)
  | .dispatch (.signed who) (.cooldownDelegation committer)
  | .dispatch (.signed who) (.delegateMore committer _ _ _)
  | .dispatch (.signed who) (.redelegate committer _) =>
    (T.commitmentIdFor s.world committer).map (who, ·)
  | .dispatch (.signed _) (.kickOut delegator committer) =>
    (T.commitmentIdFor s.world committer).map (delegator, ·)
  | .dispatch (.signed who) (.compoundDelegation committer delegator) =>
    (T.commitmentIdFor s.world committer).map (delegator.getD who, ·)
  | _ => none

def TakesFromLive (s : State T) (op : Op T) : Prop :=
  ∀ k ∈ slashedDelegation s op, SlashesLive s k.1 k.2

def delegatee (s : State T) (who : A) : Call A → Option (A × CommitmentId)
  | .delegate committer _ _ _ | .delegateMore committer _ _ _ | .redelegate _ committer =>
    (T.commitmentIdFor s.world committer).map (who, ·)
  | .compoundDelegation committer delegator =>
    (T.commitmentIdFor s.world committer).map (delegator.getD who, ·)
  | _ => none

def madeDelegation (s : State T) : Op T → Option (A × CommitmentId)
  | .dispatch (.signed who) call =>
    if (dispatch s (.signed who) call).isOk then delegatee s who call else none
  | _ => none

def Op.endsStake : Op T → Bool
  | .dispatch _ .endComputeCommitment => true
  | _ => false

structure Allows (allow : Notable A → Prop) (s : State T) (op : Op T) : Prop where
  staleSlash : TakesFromLive s op ∨ allow .staleSlash
  overflow : ∀ q, Fits q (step s op) ∨ allow (.overflow q)
  sameBlock : Aged s ∨ allow .sameBlock
  outside : ∀ w, op = .outside w → LeavesLocks T s.world w ∨ allow .outside
  join : ∀ k ∈ madeDelegation s op, allow (.join k.1 k.2)
  raise : op.isSlash = false ∧ op.isHeartbeat = false ∨ allow .raise
  unstake : op.endsStake = false ∨ allow .unstake

theorem Allows.of_all (ha : ∀ i, allow i) (s : State T) (op : Op T) : Allows allow s op where
  staleSlash := .inr (ha _)
  overflow _ := .inr (ha _)
  sameBlock := .inr (ha _)
  outside _ _ := .inr (ha _)
  join _ _ := ha _
  raise := .inr (ha _)
  unstake := .inr (ha _)

theorem acceptBackingOffer_postings {owner : A} (h : acceptBackingOffer s who owner = .ok s') :
    Postings allow s s' := by
  simp only [acceptBackingOffer, releaseBacking, ok_iff, whenSome_eq_ok, Prod.exists] at h
  obtain ⟨m, -, s₁, hr, of, -, -, -, s₂, c, hd, rfl⟩ := h
  have hre : Postings allow s { s₁ with backingOffers := s₁.backingOffers.erase owner } := by
    rcases hr with ⟨-, rfl⟩ | ⟨c, -, -, -, rfl⟩
    · exact Postings.rest rfl .refl
    · exact Postings.rest rfl .refl
  refine hre.trans ?_
  rcases doGetOrCreateCommitmentId_cases hd with rfl | ⟨next, w, hf, hcr, rfl⟩
  · exact Postings.rest rfl .refl
  · have hc : Posting allow { s₁ with backingOffers := s₁.backingOffers.erase owner } { s₁ with
        backingOffers := s₁.backingOffers.erase owner
        nextCommitmentId := next
        world := w } := .create hf hcr
    exact Posting.then hc (.rest rfl .refl)

theorem commitCompute_postings {x period : ℕ} {list : List ComputeCommitment}
    {rate : Perbill} {auto : Bool}
    (h : commitCompute s who x period list rate auto = .ok s')
    (ha : Aged s ∨ allow .sameBlock) : Postings allow s s' := by
  simp only [commitCompute, ok_iff] at h
  obtain ⟨c, -, s₁, hs, s₂, ht, -, -, rfl⟩ := h
  obtain ⟨⟨stored, rfl⟩, -⟩ := validateMaxMetricStoreCommitments_ok hs
  refine Postings.trans ?_ (stakeFor_postings ht ha)
  exact Postings.rest rfl .refl

theorem stakeMore_postings {extra : ℕ} {per : Option ℕ} {list : Option (List ComputeCommitment)}
    {rate : Option Perbill} {auto : Option Bool}
    (h : stakeMore s who extra per list rate auto = .ok s') : Postings allow s s' := by
  simp only [stakeMore, ok_iff, whenSome_eq_ok] at h
  obtain ⟨c, -, s₁, hs, s₂, ht, -, -, rfl⟩ := h
  refine Postings.trans ?_ (stakeMoreFor_postings ht)
  rcases hs with ⟨-, rfl⟩ | ⟨list, -, hs⟩
  · exact .refl s
  · obtain ⟨⟨stored, rfl⟩, -⟩ := validateMaxMetricStoreCommitments_ok hs
    exact Postings.rest rfl .refl

variable {call : Call A}

theorem dispatchSigned_postings (h : dispatchSigned s who call = .ok s') (hs : Regular s)
    (ha : Allows allow s (.dispatch (.signed who) call))
    (hf : ∀ q, Fits q s' ∨ allow (.overflow q))
    (hj : ∀ k ∈ delegatee s who call, allow (.join k.1 k.2)) : Postings allow s s' := by
  -- the condition on the delegation whose slash the call applies
  have hl : ∀ k, slashedDelegation s (.dispatch (.signed who) call) = some k →
      SlashesLive s k.1 k.2 ∨ allow .staleSlash :=
    fun k hk => ha.staleSlash.imp_left fun h => h k hk
  cases call with
  | createPool | modifyPool | enableInflation => cases h
  | offerBacking manager =>
    simp only [dispatchSigned, offerBacking, ok_iff] at h
    obtain ⟨-, -, m, -, rfl⟩ := h
    exact Postings.rest rfl .refl
  | withdrawBackingOffer =>
    simp only [dispatchSigned, withdrawBackingOffer, ok_iff] at h
    obtain ⟨m, -, rfl⟩ := h
    exact Postings.rest rfl .refl
  | acceptBackingOffer owner => exact acceptBackingOffer_postings h
  | commitCompute => exact commitCompute_postings h ha.sameBlock
  | stakeMore => exact stakeMore_postings h
  | cooldownComputeCommitment =>
    simp only [dispatchSigned, ok_iff] at h
    obtain ⟨c, -, h⟩ := h
    exact cooldownCommitmentFor_postings h
  | endComputeCommitment =>
    simp only [dispatchSigned, ok_iff] at h
    obtain ⟨c, hc, h⟩ := h
    exact endCommitmentFor_postings h hc (ha.unstake.resolve_left (by simp [Op.endsStake]))
  | delegate owner x per auto =>
    simp only [dispatchSigned, delegate, ok_iff] at h
    obtain ⟨c, hc, s₁, h, -, -, rfl⟩ := h
    exact delegateFor_postings h hf (hj (who, c) (by simp [delegatee, hc]))
  | cooldownDelegation owner =>
    simp only [dispatchSigned, ok_iff] at h
    obtain ⟨c, hc, h⟩ := h
    have hk : slashedDelegation s (.dispatch (.signed who) (.cooldownDelegation owner)) =
        some (who, c) := by rw [slashedDelegation, hc, Option.map_some]
    exact cooldownDelegationFor_postings h hs (hl _ hk)
  | redelegate old new =>
    simp only [dispatchSigned, ok_iff] at h
    obtain ⟨c, hc, c', hc', h⟩ := h
    have hk : slashedDelegation s (.dispatch (.signed who) (.redelegate old new)) =
        some (who, c) := by rw [slashedDelegation, hc, Option.map_some]
    exact redelegateFor_postings h hs (hl _ hk) hf
      (hj (who, c') (by simp [delegatee, hc']))
  | endDelegation owner =>
    simp only [dispatchSigned, ok_iff, Prod.exists] at h
    obtain ⟨c, hc, s₁, r, h, rfl⟩ := h
    have hk : slashedDelegation s (.dispatch (.signed who) (.endDelegation owner)) =
        some (who, c) := by rw [slashedDelegation, hc, Option.map_some]
    exact endDelegationFor_postings h hs (hl _ hk)
  | kickOut delegator owner =>
    simp only [dispatchSigned, ok_iff, Prod.exists] at h
    obtain ⟨c, hc, s₁, r, h, rfl⟩ := h
    have hk : slashedDelegation s (.dispatch (.signed who) (.kickOut delegator owner)) =
        some (delegator, c) := by rw [slashedDelegation, hc, Option.map_some]
    exact endDelegationFor_postings h hs (hl _ hk)
  | slash owner =>
    simp only [dispatchSigned, ok_iff] at h
    obtain ⟨c, hc, h⟩ := h
    exact doSlash_postings h (ha.raise.resolve_left (by simp [Op.isSlash]))
  | withdrawDelegation owner =>
    simp only [dispatchSigned, ok_iff, Prod.exists] at h
    obtain ⟨c, hc, s₁, r, h, rfl⟩ := h
    have hk : slashedDelegation s (.dispatch (.signed who) (.withdrawDelegation owner)) =
        some (who, c) := by rw [slashedDelegation, hc, Option.map_some]
    exact (withdrawDelegationFor_postings h hs (hl _ hk)).1
  | withdrawCommitment =>
    simp only [dispatchSigned, ok_iff, Prod.exists] at h
    obtain ⟨c, -, s₁, r, h, rfl⟩ := h
    exact (withdrawCommitterFor_postings h).1
  | delegateMore owner extra per auto =>
    simp only [dispatchSigned, delegateMore, ok_iff] at h
    obtain ⟨c, hc, s₁, h, -, -, rfl⟩ := h
    have hk : slashedDelegation s (.dispatch (.signed who) (.delegateMore owner extra per auto))
        = some (who, c) := by rw [slashedDelegation, hc, Option.map_some]
    exact delegateMoreFor_postings h hs (hl _ hk) hf
      (hj (who, c) (by simp [delegatee, hc]))
  | compoundDelegation owner delegator =>
    simp only [dispatchSigned, compoundDelegation, ok_iff] at h
    obtain ⟨c, hc, d, -, -, -, h⟩ := h
    have hk : slashedDelegation s (.dispatch (.signed who) (.compoundDelegation owner delegator))
        = some (delegator.getD who, c) := by rw [slashedDelegation, hc, Option.map_some]
    exact compoundDelegator_postings h hs (hl _ hk) hf
      (hj (delegator.getD who, c) (by simp [delegatee, hc]))
  | compoundStake =>
    simp only [dispatchSigned, compoundStake, ok_iff] at h
    obtain ⟨c, -, cm, -, st, -, -, -, h⟩ := h
    exact compoundCommitter_postings h

theorem dispatch_postings {o : Origin A} (h : dispatch s o call = .ok s') (hs : Regular s)
    (ha : Allows allow s (.dispatch o call)) : Postings allow s s' := by
  have ho : (dispatch s o call).isOk = true := by rw [h]; rfl
  have ht : step s (.dispatch o call) = s' := by rw [step, h]
  have hf : ∀ q, Fits q s' ∨ allow (.overflow q) := ht ▸ ha.overflow
  unfold dispatch at h
  split at h
  · simp only [ok_iff] at h
    obtain ⟨-, -, h⟩ := h
    obtain ⟨_, _, _, rfl⟩ := doCreatePool_writes h
    exact Postings.rest rfl .refl
  · simp only [ok_iff] at h
    obtain ⟨-, -, h⟩ := h
    obtain ⟨_, _, rfl⟩ := modifyPool_writes h
    exact Postings.rest rfl .refl
  · simp only [ok_iff] at h
    obtain ⟨-, -, rfl⟩ := h
    exact Postings.rest rfl .refl
  · split at h
    · cases h
    · refine dispatchSigned_postings h hs ha hf fun k hk => ha.join k ?_
      rw [madeDelegation, if_pos ho]
      exact hk

theorem step_postings (s : State T) (op : Op T) (hs : Regular s) (ha : Allows allow s op) :
    Postings allow s (step s op) := by
  cases op with
  | dispatch o call =>
    cases h : dispatch s o call with
    | ok s' =>
      have ht : step s (.dispatch o call) = s' := by rw [step, h]
      exact ht ▸ dispatch_postings h hs ha
    | error e =>
      have ht : step s (.dispatch o call) = s := by rw [step, h]
      rw [ht]
      exact .refl s
  | heartbeat proc manager m ms =>
    exact commit_postings s proc manager m ms (ha.raise.resolve_left (by simp [Op.isHeartbeat]))
  | block =>
    obtain ⟨w, _, _, _, hr, hq⟩ := onInitialize_writes s
    rw [step, hq]
    exact SameLedger.postings ⟨rfl, rfl, rfl, hr, Nat.le_succ _⟩
  | outside w => exact Posting.postings (.outside (ha.outside w rfl))

theorem step_postings_any (s : State T) (op : Op T) (hs : Regular s) :
    Postings (fun _ => True) s (step s op) :=
  step_postings s op hs (.of_all (fun _ => trivial) s op)

theorem genesis_regular (T : Config A) (w : T.World) : Regular (State.genesis T w) := by
  intro k d hd
  simp [State.genesis] at hd

theorem run_regular (T : Config A) (w : T.World) (ops : List (Op T)) :
    Regular (reached w ops) := by
  refine run_invariant' (fun s op hs => ?_) ops (genesis_regular T w)
  exact (step_postings_any s op hs).regular hs

inductive Within (s : State T) : State T → Prop
  | start : Within s s
  | accrued {s₁ s₂ : State T} {who : A} {c : CommitmentId} (before : Within s s₁)
      (call : accrueDelegator s₁ who c = .ok s₂) : Within s s₂
  | slashed {s₁ s₂ : State T} {who : A} {c : CommitmentId} (before : Within s s₁)
      (call : applyDelegatorSlash s₁ who c = .ok s₂) : Within s s₂
  | withdrawn {s₁ s₂ : State T} {who : A} {c : CommitmentId} {reward : ℕ} (before : Within s s₁)
      (call : withdrawDelegationFor s₁ who c = .ok (s₂, reward)) : Within s s₂

theorem Within.postings (h : Within s s') (hs : Regular s) (ht : allow .staleSlash) :
    Postings allow s s' ∧ s'.blockNumber = s.blockNumber := by
  induction h with
  | start => exact ⟨.refl s, rfl⟩
  | accrued hb call ih =>
    obtain ⟨d, d', ha, hl⟩ := accrueDelegator_accrued call (ih.1.regular hs)
    exact ⟨ih.1.trans (ha.postings hl), hl.trans ih.2⟩
  | slashed hb call ih =>
    obtain ⟨hp, hl, -⟩ :=
      applyDelegatorSlash_postings call (ih.1.regular hs) (.inr ht)
    exact ⟨ih.1.trans hp, hl.trans ih.2⟩
  | withdrawn hb call ih =>
    obtain ⟨hp, hl, -⟩ :=
      withdrawDelegationFor_postings call (ih.1.regular hs) (.inr ht)
    exact ⟨ih.1.trans hp, hl.trans ih.2⟩

end Acurast.Compute
