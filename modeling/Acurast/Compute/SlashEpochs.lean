import Mathlib.Order.Interval.Finset.Nat
import Acurast.Compute.Mock

/-! The epochs that slash calls charge a commitment for. -/

namespace Acurast.Compute

open Base

variable {A : Type} {T : Config A} {s s' s₁ : State T} {c : CommitmentId}

def chargedEpochs (lastEpoch missed : ℕ) : Finset ℕ := Finset.Ioc (lastEpoch - missed) lastEpoch

def lastSlashed (s : State T) (c : CommitmentId) : ℕ :=
  (s.commitments.lookup c).elim 0 (·.lastSlashingEpoch)

def Entry.isCharge : Entry A → Bool
  | .charged .. => true
  | _ => false

def ChargesDisjoint (history : List (Entry A)) : Prop :=
  history.Pairwise fun x y => ∀ c p l m l' m', x = .charged c p l m → y = .charged c p l' m' →
    Disjoint (chargedEpochs l m) (chargedEpochs l' m')

structure Quiet (s s' : State T) : Prop where
  lastSlashed : ∀ c, lastSlashed s' c = lastSlashed s c
  history : ∃ new, s'.history = new ++ s.history ∧ ∀ x ∈ new, x.isCharge = false

theorem Quiet.refl (s : State T) : Quiet s s := ⟨fun _ => rfl, [], rfl, by simp⟩

theorem Quiet.trans {s₂ : State T} (h : Quiet s s₁) (h' : Quiet s₁ s₂) : Quiet s s₂ := by
  obtain ⟨new, hq, hn⟩ := h.history
  obtain ⟨new', he', hn'⟩ := h'.history
  refine ⟨fun c => (h'.lastSlashed c).trans (h.lastSlashed c), new' ++ new, ?_, ?_⟩
  · rw [he', hq, List.append_assoc]
  · exact List.forall_mem_append.mpr ⟨hn', hn⟩

variable {cm cm' : Commitment} {epoch e : ℕ} {m : ManagerId} {plan : SlashPlan} {call : Call A}
  {commitment : ComputeCommitment} {p : PoolId} {s₀ : State T}

theorem lastSlashed_insert (hs' : s'.commitments = s.commitments.insert c cm) (c' : CommitmentId) :
    lastSlashed s' c' = if c' = c then cm.lastSlashingEpoch else lastSlashed s c' := by
  rw [lastSlashed, hs', lookup_insert_eq]
  split_ifs
  · rfl
  · rfl

theorem lastSlashed_keep (hc : s.commitments.lookup c = some cm)
    (hs' : s'.commitments = s.commitments.insert c cm')
    (h : cm'.lastSlashingEpoch = cm.lastSlashingEpoch) (c' : CommitmentId) :
    lastSlashed s' c' = lastSlashed s c' := by
  rw [lastSlashed_insert hs']
  split_ifs with hq
  · rw [hq, h, lastSlashed, hc, Option.elim_some]
  · rfl

theorem Planned.lt_of_mem_chargedEpochs {charge : PoolId × ℕ} (h : Planned s c plan cm m)
    (hc : charge ∈ plan.charges) (hp : epoch ∈ chargedEpochs plan.lastEpoch charge.2) :
    lastSlashed s c < epoch ∧ epoch ≤ plan.lastEpoch := by
  rw [h.charges] at hc
  obtain ⟨p, -, rfl⟩ := List.mem_map.mp hc
  have hf := h.fresh
  rw [lastSlashed, h.found, Option.elim_some]
  simp only [chargedEpochs, Finset.mem_Ioc, missedEpochsOf] at hp
  split_ifs at hp <;> omega

structure ChargedOnce (s : State T) : Prop where
  below : ∀ c p l m, .charged c p l m ∈ s.history → l ≤ lastSlashed s c
  disjoint : ChargesDisjoint s.history

theorem Quiet.chargedOnce (h : Quiet s s') (hs : ChargedOnce s) : ChargedOnce s' := by
  obtain ⟨new, hq, hn⟩ := h.history
  refine ⟨fun c p l m hm => ?_, ?_⟩
  · rw [hq, List.mem_append] at hm
    rw [h.lastSlashed]
    rcases hm with hm | hm
    · exact absurd (hn _ hm) (by simp [Entry.isCharge])
    · exact hs.below c p l m hm
  · rw [hq, ChargesDisjoint, List.pairwise_append]
    refine ⟨?_, hs.disjoint, ?_⟩
    · refine List.pairwise_of_forall_mem_list fun x hx y _ c p l m l' m' hc => ?_
      exact absurd (hn x hx) (by simp [hc, Entry.isCharge])
    · intro x hx y _ c p l m l' m' hc
      exact absurd (hn x hx) (by simp [hc, Entry.isCharge])

theorem Planned.charges_pairwise (h : Planned s c plan cm m) :
    plan.charges.Pairwise fun a b => a.1 ≠ b.1 := by
  rw [h.charges, List.pairwise_map]
  exact iterPrefix_pairwise s.computeCommitments c

variable [DecidableEq A] {allow : Special → Prop}

theorem Move.quiet (h : Move (· ≠ .slash) s s') : Quiet s s' := by
  cases h with
  | rest hb hcl =>
    refine ⟨fun c => ?_, [], hb.history, by simp⟩
    simp only [lastSlashed, hb.commitments]
  | adjust hf ha =>
    exact ⟨lastSlashed_keep hf rfl ha.lastSlashingEpoch, [], rfl, by simp⟩
  | revise | close | join | reback => exact ⟨fun _ => rfl, [], rfl, by simp⟩
  | accrue | repay | noteSlash => exact ⟨fun _ => rfl, [_], rfl, by simp [Entry.isCharge]⟩
  | payout => exact ⟨fun _ => rfl, [_, _], rfl, by simp [Entry.isCharge]⟩
  | stake ht =>
    refine ⟨fun c' => ?_, [], rfl, by simp⟩
    rw [lastSlashed_insert rfl]
    split_ifs with hq
    · rw [hq, ht.lastSlashingEpoch, lastSlashed]
    · rfl
  | raise hf hs hr hp hl =>
    exact ⟨lastSlashed_keep hf rfl hl, [], rfl, by simp⟩
  | unstake hf hs hu hp hl =>
    exact ⟨lastSlashed_keep hf rfl hl, [], rfl, by simp⟩
  | lowerStake hf hs ho hp hl =>
    exact ⟨lastSlashed_keep hf rfl hl, [], rfl, by simp⟩
  | mark hf hm hal => exact absurd rfl hal
  | credit hf hc =>
    exact ⟨lastSlashed_keep hf rfl hc.lastSlashingEpoch, [_], rfl, by simp [Entry.isCharge]⟩

theorem Moves.quiet (h : Moves (· ≠ .slash) s s') : Quiet s s' := by
  induction h with
  | refl => exact .refl s
  | tail _ hl ih => exact ih.trans hl.quiet

structure Charges (s s' s₁ : State T) (c : CommitmentId) (plan : SlashPlan) (cm cm' : Commitment)
    (m : ManagerId) : Prop where
  planned : Planned s c plan cm m
  moves : Moves (· ≠ .slash) s s₁
  marked : cm'.lastSlashingEpoch = plan.lastEpoch
  result : s' = { s₁ with
    commitments := s₁.commitments.insert c cm'
    history := plan.charges.map (fun p => .charged c p.1 plan.lastEpoch p.2) ++ s₁.history }

theorem dispatch_slash_charges {o : Origin A} {owner : A}
    (h : dispatch s o (.slash owner) = .ok s') :
    s' = s ∨ ∃ c plan cm m s₁ cm', Charges s s' s₁ c plan cm cm' m := by
  cases o with
  | root => cases h
  | signed who =>
    simp only [dispatch, dispatchSigned, ok_iff] at h
    obtain ⟨c, -, h⟩ := h
    obtain ⟨plan, cm, m, hp, ⟨-, ha⟩ | ⟨shares, owner, credit, s₁, cm₁, cm', hs⟩⟩ :=
      doSlash_cases (· ≠ .slash) h (.inr (by decide))
    · exact .inl ha
    · exact .inr ⟨c, plan, cm, m, s₁, cm', hp, hs.moves, hs.marks.lastSlashingEpoch, hs.result⟩

theorem step_charges (s : State T) (op : Op T) : Moves (· ≠ .slash) s (step s op) ∨
    ∃ c plan cm m s₁ cm', Charges s (step s op) s₁ c plan cm cm' m := by
  by_cases ho : op.isSlash = false
  · exact .inl (step_moves s op { slash := .inl ho })
  · unfold Op.isSlash at ho
    split at ho
    · simp only [step]
      split
      · next s' h =>
        rcases dispatch_slash_charges h with rfl | hc
        · exact .inl (.refl _)
        · exact .inr hc
      · exact .inl (.refl s)
    · exact absurd rfl ho

theorem Charges.chargedOnce (h : Charges s s' s₁ c plan cm cm' m) (hs : ChargedOnce s) :
    ChargedOnce s' := by
  have hs₁ := h.moves.quiet.chargedOnce hs
  have hla : lastSlashed s₁ c < plan.lastEpoch := by
    rw [h.moves.quiet.lastSlashed, lastSlashed, h.planned.found]
    exact h.planned.fresh
  have ha : ∀ c', lastSlashed s' c' = if c' = c then plan.lastEpoch else lastSlashed s₁ c' :=
    fun c' => by rw [lastSlashed_insert (by rw [h.result]) c', h.marked]
  refine ⟨fun c' p l n hm => ?_, ?_⟩
  · rw [h.result, List.mem_append, List.mem_map] at hm
    rw [ha]
    rcases hm with ⟨charge, -, hq⟩ | hm
    · cases hq
      rw [if_pos rfl]
    · have hl := hs₁.below c' p l n hm
      split_ifs with hq
      · subst hq
        omega
      · exact hl
  · rw [h.result, ChargesDisjoint, List.pairwise_append, List.pairwise_map]
    refine ⟨?_, hs₁.disjoint, ?_⟩
    · refine h.planned.charges_pairwise.imp fun hn c' p l n l' n' hx hy => ?_
      rw [Entry.charged.injEq] at hx hy
      exact absurd (hx.2.1.trans hy.2.1.symm) hn
    · intro x hx y hy c' p l n l' n' hc hyc
      obtain ⟨charge, hh, rfl⟩ := List.mem_map.mp hx
      cases hc
      subst hyc
      have hl := hs₁.below _ _ _ _ hy
      refine Finset.disjoint_left.mpr fun epoch hin ho => ?_
      have ht := (h.planned.lt_of_mem_chargedEpochs hh hin).1
      rw [h.moves.quiet.lastSlashed] at hl
      have hl' := (Finset.mem_Ioc.mp ho).2
      omega

theorem step_chargedOnce (s : State T) (op : Op T) (hs : ChargedOnce s) : ChargedOnce (step s op) := by
  rcases step_charges s op with hm | ⟨c, plan, cm, m, s₁, cm', hc⟩
  · exact hm.quiet.chargedOnce hs
  · exact hc.chargedOnce hs

structure Timed (s : State T) : Prop where
  started : Started s
  sums : ∀ m p, (sumAt s m p).epoch ≤ s.currentCycle.epoch

structure Later (s s' : State T) : Prop where
  timed : Timed s'
  epoch_le : s.currentCycle.epoch ≤ s'.currentCycle.epoch
  sums : ∀ m p, (sumAt s m p).epoch ≤ (sumAt s' m p).epoch

theorem Move.later (h : Move allow s s') (hs : Timed s) : Later s s' := by
  cases h with
  | rest hb hc =>
    refine ⟨⟨hc.started hs.started, fun m p => ?_⟩, hc.epoch_le hs.started, fun m p => ?_⟩
    · exact (hc.sums m p (hs.sums m p)).2.trans (hc.epoch_le hs.started)
    · exact (hc.sums m p (hs.sums m p)).1
  | adjust | accrue | revise | payout | close | join | stake | raise | unstake | repay | lowerStake |
      reback | noteSlash | mark | credit =>
    exact ⟨⟨⟨hs.started.zero, hs.started.lt⟩, hs.sums⟩, le_rfl, fun _ _ => le_rfl⟩

theorem Moves.later (h : Moves allow s s') (hs : Timed s) : Later s s' := by
  induction h with
  | refl => exact ⟨hs, le_rfl, fun _ _ => le_rfl⟩
  | tail _ hl ih =>
    have ht := hl.later ih.timed
    exact ⟨ht.timed, ih.epoch_le.trans ht.epoch_le, fun m p => (ih.sums m p).trans (ht.sums m p)⟩

theorem Moves.backings_eq (h : Moves (· ≠ .reback) s s') : s'.backings = s.backings := by
  induction h with
  | refl => rfl
  | tail _ hl ih =>
    rw [← ih]
    cases hl with
    | rest hb hc => exact hb.backings
    | reback ha => exact absurd rfl ha
    | adjust | accrue | revise | payout | close | join | stake | raise | unstake | repay | lowerStake |
        noteSlash | mark | credit => rfl

theorem step_later (op : Op T) (hs : Timed s) : Later s (step s op) := by
  have hm : Moves (fun _ => True) s (step s op) := step_moves s op {}
  exact hm.later hs

theorem step_timed (s : State T) (op : Op T) (hs : Timed s) : Timed (step s op) :=
  (step_later op hs).timed

theorem step_backings (s : State T) (op : Op T) (ho : op.acceptsOffer = false) :
    (step s op).backings = s.backings :=
  Moves.backings_eq (step_moves s op { reback := .inl ho })

omit [DecidableEq A] in
theorem genesis_timed (w : T.World) : Timed (State.genesis T w) :=
  ⟨⟨fun _ => ⟨rfl, rfl⟩, Nat.two_pow_pos 32⟩, fun _ _ => le_rfl⟩

def Call.stored : Call A → List ComputeCommitment
  | .commitCompute _ _ commitment _ _ => commitment
  | .stakeMore _ _ (some commitment) _ _ => commitment
  | _ => []

omit [DecidableEq A] in
theorem acceptsOffer_of_stored {o : Origin A} (h : commitment ∈ call.stored) :
    Op.acceptsOffer (.dispatch o call : Op T) = false := by
  cases call with
  | acceptBackingOffer owner => cases h
  | _ => rfl

theorem dispatch_stored {who : A} (h : dispatch s (.signed who) call = .ok s')
    (hme : commitment ∈ call.stored) (hc : T.commitmentIdFor s.world who = some c) :
    ∃ m, s.backings.lookup c = some m ∧
      commitment.metric ≤ ((sumAt s m commitment.poolId).get (s.currentCycle.epoch - 1)).1 := by
  unfold Call.stored at hme
  split at hme
  · simp only [dispatch, dispatchSigned, commitCompute, ok_iff] at h
    obtain ⟨c', hc', s₁, hs, -⟩ := h
    obtain rfl := Option.mem_unique hc hc'
    obtain ⟨-, m, hm, hl⟩ := validateMaxMetricStoreCommitments_ok hs
    exact ⟨m, hm, hl commitment hme⟩
  · simp only [dispatch, dispatchSigned, stakeMore, ok_iff, whenSome] at h
    obtain ⟨c', hc', s₁, hs, -⟩ := h
    obtain rfl := Option.mem_unique hc hc'
    obtain ⟨-, m, hm, hl⟩ := validateMaxMetricStoreCommitments_ok hs
    exact ⟨m, hm, hl commitment hme⟩
  · cases hme

/-- What holds after a metric of pool `p` was stored in the epoch `e`, as long as the manager `m`
stays behind the commitment. -/
structure SinceStored (s₀ : State T) (c : CommitmentId) (p : PoolId) (m : ManagerId) (e : ℕ)
    (s : State T) : Prop where
  timed : Timed s
  epoch_le : e ≤ s.currentCycle.epoch
  sum_le : e - 1 ≤ (sumAt s m p).epoch
  backing : s.backings.lookup c = some m
  history : ∃ new, s.history = new ++ s₀.history ∧ ∀ l n, .charged c p l n ∈ new →
    ∀ epoch ∈ chargedEpochs l n, e - 1 ≤ epoch

omit [DecidableEq A] in
theorem SinceStored.le_of_mem_chargedEpochs {m' : ManagerId} {n : ℕ} (h : SinceStored s₀ c p m e s)
    (hp : Planned s c plan cm m') (hc : (p, n) ∈ plan.charges)
    (hep : epoch ∈ chargedEpochs plan.lastEpoch n) : e - 1 ≤ epoch := by
  obtain rfl := Option.mem_unique h.backing hp.backed
  rw [hp.charges, List.mem_map] at hc
  obtain ⟨charge, -, hq⟩ := hc
  obtain ⟨rfl, rfl⟩ := Prod.mk.inj hq
  have hs := h.sum_le
  have hl := hp.lastEpoch
  have hy := h.epoch_le
  simp only [chargedEpochs, Finset.mem_Ioc, missedEpochsOf] at hep
  split_ifs at hep <;> omega

theorem step_sinceStored (s : State T) (op : Op T)
    (ho : op.acceptsOffer = true → (step s op).backings.lookup c = s.backings.lookup c)
    (hs : SinceStored s₀ c p m e s) : SinceStored s₀ c p m e (step s op) := by
  have hl := step_later op hs.timed
  refine ⟨hl.timed, hs.epoch_le.trans hl.epoch_le, hs.sum_le.trans (hl.sums m p), ?_, ?_⟩
  · cases ha : op.acceptsOffer with
    | true => exact (ho ha).trans hs.backing
    | false => rw [step_backings s op ha, hs.backing]
  · obtain ⟨old, hold, ht⟩ := hs.history
    have hq : ∀ s₁, Quiet s s₁ → ∃ new, s₁.history = new ++ s₀.history ∧
        ∀ l n, .charged c p l n ∈ new → ∀ epoch ∈ chargedEpochs l n, e - 1 ≤ epoch := by
      intro s₁ hq
      obtain ⟨new, heq, hn⟩ := hq.history
      refine ⟨new ++ old, by rw [heq, hold, List.append_assoc], fun l n hm => ?_⟩
      rcases List.mem_append.mp hm with hm | hm
      · exact absurd (hn _ hm) (by simp [Entry.isCharge])
      · exact ht l n hm
    rcases step_charges s op with hmo | ⟨c', plan, cm, m', s₁, cm', hc⟩
    · exact hq _ hmo.quiet
    · obtain ⟨new, heq, hn⟩ := hq s₁ hc.moves.quiet
      refine ⟨plan.charges.map (fun p => .charged c' p.1 plan.lastEpoch p.2) ++ new, ?_, ?_⟩
      · rw [hc.result, heq, List.append_assoc]
      · intro l n hm epoch hp
        rcases List.mem_append.mp hm with hm | hm
        · obtain ⟨charge, hh, hen⟩ := List.mem_map.mp hm
          obtain ⟨rfl, rfl, rfl, rfl⟩ := hen
          exact hs.le_of_mem_chargedEpochs hc.planned hh hp
        · exact hn l n hm epoch hp

/-- In every run the charges of a commitment for one pool are disjoint; after a call stored a metric
of a pool, no charge for it reaches back beyond the epoch before the call, as long as no accepted
offer changes the manager. -/
theorem charges_disjoint_and_since_stored (w : T.World) (before : List (Op T))
    (hs : s = reached w before) : ChargesDisjoint s.history ∧
    ∀ (who : A) (call : Call A) (c : CommitmentId) (commitment : ComputeCommitment) (s₀ : State T)
      (after : List (Op T)), T.commitmentIdFor s.world who = some c →
      dispatch s (.signed who) call = .ok s₀ → commitment ∈ call.stored → commitment.metric ≠ 0 →
      Along step (fun s op => op.acceptsOffer = true →
        (step s op).backings.lookup c = s.backings.lookup c) s₀ after →
      ∃ new, (run step s₀ after).history = new ++ s₀.history ∧
        ∀ l n, .charged c commitment.poolId l n ∈ new → ∀ epoch ∈ chargedEpochs l n,
          s.currentCycle.epoch - 1 ≤ epoch := by
  have hti : Timed s :=
    hs ▸ run_invariant' step_timed before (genesis_timed w)
  have hg : ChargedOnce (State.genesis T w) :=
    ⟨fun c p l m hmem => by simp [State.genesis] at hmem, List.Pairwise.nil⟩
  refine ⟨hs ▸ (run_invariant' step_chargedOnce before hg).disjoint, ?_⟩
  intro who call c commitment s₀ after hc ha ht hme hf
  obtain ⟨m, hm, hle⟩ := dispatch_stored ha ht hc
  have hu : (sumAt s m commitment.poolId).get (s.currentCycle.epoch - 1) ≠ default := by
    intro hz
    rw [hz] at hle
    exact hme (Nat.le_zero.mp hle)
  have ho : Moves (· ≠ .reback) s s₀ :=
    dispatch_moves ha { reback := .inl (acceptsOffer_of_stored ht) }
  have hl := ho.later hti
  have hsi : SinceStored s₀ c commitment.poolId m s.currentCycle.epoch s₀ := by
    refine ⟨hl.timed, hl.epoch_le, le_trans ?_ (hl.sums m _), ?_, [], rfl, by simp⟩
    · rcases SlidingBuffer.epoch_of_get_ne_default hu with hp | hp <;> omega
    · rw [ho.backings_eq, hm]
  exact (run_invariant step_sinceStored hf hsi).history

def slashedTwice : List (Op mock) :=
  [.block, .block, .block, signed 5 (.slash 2), .block, beat, .block, .block, signed 5 (.slash 2)]

theorem charges_since_stored_slashedTwice :
    ∃ new, (run step (step (after prepared) (signed 2 stakeCall))
        slashedTwice).history =
        new ++ (step (after prepared) (signed 2 stakeCall)).history ∧
      ∀ l n, .charged 0 1 l n ∈ new → ∀ epoch ∈ chargedEpochs l n,
        (after prepared).currentCycle.epoch - 1 ≤ epoch := by
  have hd : mock.commitmentIdFor (after prepared).world 2 = some 0 := by
    decide +kernel
  have ho : (dispatch (after prepared) (.signed 2) stakeCall).isOk = true := by
    decide +kernel
  have ha : Along step (fun s op => op.acceptsOffer = true →
      (step s op).backings.lookup 0 = s.backings.lookup 0)
      (step (after prepared) (signed 2 stakeCall)) slashedTwice := by
    decide +kernel
  exact (charges_disjoint_and_since_stored (T := mock) [] prepared rfl).2 2 stakeCall 0 _ _ _ hd
    (dispatch_eq_step ho) (List.mem_singleton.mpr rfl) (by decide) ha

end Acurast.Compute
