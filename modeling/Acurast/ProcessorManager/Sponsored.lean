import Acurast.ProcessorManager.Consent

/-! What the funds on hold for onboarding pay. They are freed for the fee that is expected, and what
was too much of it goes back to the free balance. -/

namespace Acurast.ProcessorManager

open Base

variable {A : Type} {T : Config A}

structure HoldsApart (T : Config A) : Prop where
  commit : ∀ w l processor manager metrics a,
    ((T.commit w l processor manager metrics).2 a).onHold = (l a).onHold
  advertise : ∀ w l processor advertisement w' l', T.advertise w l processor advertisement =
    some (w', l') → ∀ a, (l' a).onHold = (l a).onHold
  other : ∀ w l origin call w' l', T.dispatchOther w l origin call = some (w', l') →
    ∀ a, (l' a).onHold = (l a).onHold

def onHoldOf (s : State T) (a : A) : ℕ := (s.accounts a).onHold

def SameHolds (s s' : State T) : Prop := ∀ a, onHoldOf s' a = onHoldOf s a

variable {s s' : State T} {call : RuntimeCall T} {val : Val A} {who : A} {fee : ℕ}
  {info : Option (LiquidityInfo A)} {tx : Transaction T}

theorem SameHolds.of_accounts (h : s'.accounts = s.accounts) : SameHolds s s' := by
  intro a
  rw [onHoldOf, h, onHoldOf]

variable [DecidableEq A] {s s' : State T} {ed cap : ℕ}

section Calls

variable {id : ManagerId} {who : A} {call : Call T}

theorem doGetOrCreateManagerId_accounts {m : A}
    (h : doGetOrCreateManagerId s m = .ok (s', id)) : s'.accounts = s.accounts := by
  unfold doGetOrCreateManagerId at h
  split at h
  · simp only [pure_eq_ok, Prod.mk.injEq] at h
    rw [h.1]
  · simp only [createManagerId, ok_iff, Prod.mk.injEq] at h
    obtain ⟨id', -, s₁, ⟨-, -, rfl⟩, rfl, -⟩ := h
    rfl

theorem updatePairing_accounts {update : ProcessorPairingUpdate A T.Signature}
    (h : updatePairing who id s update = .ok s') : s'.accounts = s.accounts := by
  unfold updatePairing at h
  split at h
  · simp only [addProcessor, ok_iff] at h
    obtain ⟨-, -, counter, -, -, -, s₁, ha, rfl⟩ := h
    obtain ⟨-, rfl⟩ := doAddProcessorManagerPairing_ok ha
    rfl
  · simp only [doRemoveProcessorManagerPairing, ok_iff] at h
    obtain ⟨id', -, rfl⟩ := h
    rfl

theorem updateProcessorPairings_accounts {ups : List (ProcessorPairingUpdate A T.Signature)}
    (h : updateProcessorPairings s who ups = .ok s') : s'.accounts = s.accounts := by
  simp only [updateProcessorPairings, bind_eq_ok] at h
  obtain ⟨⟨s₁, id⟩, hd, hl⟩ := h
  refine foldlM_invariant (P := fun t => t.accounts = s.accounts) ?_ hl
    (doGetOrCreateManagerId_accounts hd)
  intro t update t' hu ht
  exact (updatePairing_accounts hu).trans ht

theorem pairWith_accounts {pair : ProcessorPairing A T.Signature} {isMulti : Bool}
    (h : pairWith s who pair isMulti = .ok s') : s'.accounts = s.accounts := by
  simp only [pairWith, ok_iff] at h
  obtain ⟨counter, -, ⟨s₁, id⟩, hid, s₂, hd, rfl⟩ := h
  obtain ⟨-, rfl⟩ := doAddProcessorManagerPairing_ok hd
  have ha := doGetOrCreateManagerId_accounts hid
  exact ha

theorem recoverAssets_sameHolds {proc destination : A}
    (h : recoverAssets s proc destination = .ok s') : SameHolds s s' := by
  unfold recoverAssets at h
  dsimp only at h
  split_ifs at h
  · simp only [ok_iff] at h
    obtain ⟨burned, hb, minted, hmi, rfl⟩ := h
    intro a
    have hm := Ledger.change_onHold hmi (fun x hx => Account.mint_onHold hx) a
    exact hm.trans (Ledger.change_withdraw_onHold hb a)
  · cases h
    exact .of_accounts rfl

theorem setProcessorUpdateInfo_accounts {updateInfo : UpdateInfo} {procs : List A}
    (h : setProcessorUpdateInfo s who updateInfo procs = .ok s') :
    s'.accounts = s.accounts := by
  simp only [setProcessorUpdateInfo, bind_eq_ok] at h
  obtain ⟨-, -, hl⟩ := h
  refine foldlM_invariant (P := fun t => t.accounts = s.accounts) ?_ hl rfl
  intro t proc t' hs ht
  simp only [setUpdateInfoOf, ok_iff] at hs
  obtain ⟨id, -, rfl⟩ := hs
  exact ht

variable (apart : HoldsApart T)

include apart

theorem commitFor_sameHolds (s : State T) (who : A) (ms : T.Metrics) :
    SameHolds s (commitFor s who ms) := by
  unfold commitFor
  split_ifs
  · split
    · exact fun a => apart.commit _ _ _ _ _ a
    · exact .of_accounts rfl
  · exact .of_accounts rfl

theorem heartbeatWithMetrics_sameHolds {version : Version} {ms : T.Metrics}
    (h : heartbeatWithMetrics s who version ms = .ok s') : SameHolds s s' := by
  simp only [heartbeatWithMetrics, ok_iff] at h
  obtain ⟨-, -, rfl⟩ := h
  exact commitFor_sameHolds apart _ who ms

theorem dispatchSigned_sameHolds (h : dispatchSigned s who call = .ok s') : SameHolds s s' := by
  cases call with
  | updateProcessorPairings ups => exact .of_accounts (updateProcessorPairings_accounts h)
  | pairWithManager pair => exact .of_accounts (pairWith_accounts h)
  | multiPairWithManager pair => exact .of_accounts (pairWith_accounts h)
  | recoverFunds proc dest =>
    simp only [dispatchSigned, recoverFunds, bind_eq_ok] at h
    obtain ⟨p, -, id, -, d, -, hr⟩ := h
    exact recoverAssets_sameHolds hr
  | heartbeat =>
    simp only [dispatchSigned, heartbeat, ok_iff] at h
    obtain ⟨-, -, rfl⟩ := h
    exact .of_accounts rfl
  | advertiseFor proc ad =>
    simp only [dispatchSigned, advertiseFor, ok_iff] at h
    obtain ⟨p, -, id, -, ⟨w', l'⟩, hd, rfl⟩ := h
    exact apart.advertise _ _ _ _ _ _ hd
  | heartbeatWithVersion version => exact heartbeatWithMetrics_sameHolds apart h
  | setProcessorUpdateInfo updateInfo procs =>
    exact .of_accounts (setProcessorUpdateInfo_accounts h)
  | heartbeatWithMetrics version ms => exact heartbeatWithMetrics_sameHolds apart h
  | setManagementEndpoint endpoint =>
    simp only [dispatchSigned, setManagementEndpoint, ok_iff] at h
    obtain ⟨⟨s₁, id⟩, hid, rfl⟩ := h
    have ha := doGetOrCreateManagerId_accounts hid
    cases endpoint <;> exact .of_accounts ha
  | onboard pair multi attestationChain =>
    simp only [dispatchSigned, onboard, bind_eq_ok] at h
    obtain ⟨-, -, hp⟩ := h
    have ha := pairWith_accounts hp
    exact .of_accounts ha
  | updateBinaryHash _ _ => cases h
  | updateMinProcessorVersionForReward _ => cases h
  | updateOnboardingSettings _ => cases h

theorem dispatch_sameHolds {o : Origin A} (h : dispatch s o call = .ok s') :
    SameHolds s s' := by
  unfold dispatch at h
  split at h
  · next version hash =>
    simp only [ok_iff] at h
    obtain ⟨-, -, rfl⟩ := h
    cases hash <;> exact .of_accounts rfl
  · simp only [ok_iff] at h
    obtain ⟨-, -, rfl⟩ := h
    exact .of_accounts rfl
  · simp only [ok_iff] at h
    obtain ⟨-, -, rfl⟩ := h
    exact .of_accounts rfl
  · simp only [bind_eq_ok] at h
    obtain ⟨who, -, hs⟩ := h
    exact dispatchSigned_sameHolds apart hs

theorem dispatchCall_sameHolds {o : Origin A} {call : RuntimeCall T}
    (h : dispatchCall s o call = .ok s') : SameHolds s s' := by
  cases call with
  | processorManager call => exact dispatch_sameHolds apart h
  | other call =>
    simp only [dispatchCall, ok_iff] at h
    obtain ⟨⟨w', l'⟩, ho, rfl⟩ := h
    exact apart.other _ _ _ _ _ _ ho

end Calls

/-! Before the call. -/

theorem onboardingValidate_noFund (hp : s.processorToManagerIdIndex.lookup who ≠ none)
    (h : onboardingValidate s who call = .ok val) : val = .noFund := by
  have hn : ∀ m, canFundProcessorOnboarding s who m = none := by
    intro m
    unfold canFundProcessorOnboarding
    cases s.processorOnboardingSettings with
    | none => rfl
    | some settings => exact if_neg fun hc => hp hc.2.1
  unfold onboardingValidate at h
  split at h
  · exact (pure_eq_ok.mp h).symm
  · rw [bind_eq_ok] at h
    obtain ⟨-, -, h⟩ := h
    split at h
    · exact (pure_eq_ok.mp h).symm
    · rw [bind_eq_ok] at h
      obtain ⟨-, -, h⟩ := h
      rw [hn] at h
      exact (pure_eq_ok.mp h).symm

theorem onboardingPrepare_onHold (h : onboardingPrepare s val = .ok s') (a : A) :
    onHoldOf s a ≤ onHoldOf s' a := by
  rcases onboardingPrepare_ok h with rfl | ⟨fromAccount, toAccount, amt, -, hf⟩
  · exact le_rfl
  · simp only [fund, ok_iff] at hf
    obtain ⟨paid, hp, held, hh, rfl⟩ := hf
    have ht : (paid a).onHold = onHoldOf s a := (Ledger.transfer_onHold hp a).1
    obtain ⟨x, hx, rfl⟩ := Ledger.change_eq_some hh
    have ho := (Account.hold_eq_some hx).2.1
    rw [← ht]
    change (paid a).onHold ≤ (Function.update paid toAccount x a).onHold
    rcases eq_or_ne a toAccount with rfl | hn
    · rw [Function.update_self]
      omega
    · rw [Function.update_of_ne hn]

theorem releaseFeeFunds_onHold {acc : A}
    (hr : T.existentialDeposit ≤ ((releaseFeeFunds s acc fee).accounts acc).free)
    (a : A) : onHoldOf (releaseFeeFunds s acc fee) a =
      onHoldOf s a - if a = acc then min fee (onHoldOf s acc) else 0 := by
  by_cases hc : (s.accounts acc).CanDeposit fee
  · obtain ⟨x, hx, hh⟩ := Account.release_eq_some hc
    have hch : s.accounts.change acc (Account.release · fee) =
        some (Function.update s.accounts acc x) := by
      rw [Ledger.change, hx, Option.map_some]
    rw [releaseFeeFunds, hch]
    change (Function.update s.accounts acc x a).onHold = _
    split_ifs with hs
    · rw [hs, Function.update_self, hh]
      rfl
    · rw [Function.update_of_ne hs, Nat.sub_zero]
      rfl
  · have hn : s.accounts.change acc (Account.release · fee) = none :=
      Ledger.change_eq_none.mpr (if_neg hc)
    rw [releaseFeeFunds, hn] at hr
    exact absurd (Or.inr (Nat.le_add_right_of_le hr)) hc

def freedFor (s : State T) (who : A) (call : RuntimeCall T) (fee : ℕ) : ℕ :=
  if feePayer s who call ≠ who ∧ isFundableCall call = true then
    min fee (onHoldOf s (feePayer s who call))
  else 0

theorem beforeFee_onHold (hr : T.existentialDeposit ≤
      ((beforeFee s who call fee).accounts (feePayer s who call)).free) (a : A) :
    onHoldOf (beforeFee s who call fee) a =
      onHoldOf s a - if a = feePayer s who call then freedFor s who call fee else 0 := by
  unfold beforeFee at hr ⊢
  unfold freedFor
  by_cases hf : feePayer s who call ≠ who ∧ isFundableCall call = true
  · rw [if_pos hf] at hr ⊢
    rw [if_pos hf]
    exact releaseFeeFunds_onHold hr a
  · rw [if_neg hf, if_neg hf, ite_self, Nat.sub_zero]

theorem withdrawFee_onHold (h : withdrawFee s who call fee = .ok (s', info)) (a : A) :
    onHoldOf s' a =
      onHoldOf s a - if a = feePayer s who call then freedFor s who call fee else 0 := by
  rcases withdrawFee_ok h with ⟨rfl, rfl, -⟩ | ⟨hp, -, accounts, hc, rfl⟩
  · rw [freedFor, Nat.zero_min, ite_self, ite_self, Nat.sub_zero]
  · obtain ⟨x, hx, -⟩ := Ledger.change_eq_some hc
    have hr := Account.deposit_le_of_withdraw_preserve hx hp
    have hs : (accounts a).onHold = onHoldOf (beforeFee s who call fee) a :=
      Ledger.change_withdraw_onHold hc a
    exact hs.trans (beforeFee_onHold hr a)

/-! After the call. -/

def TakesRefund (x : Account ed cap) (amount : ℕ) : Prop :=
  0 < x.free + x.reserved ∧ ed ≤ x.free + amount

instance (x : Account ed cap) (amount : ℕ) : Decidable (TakesRefund x amount) :=
  inferInstanceAs (Decidable (0 < x.free + x.reserved ∧ ed ≤ x.free + amount))

theorem refund_eq (s : State T) (payer : A) (amount : ℕ) :
    (refund s payer amount).2 = (if TakesRefund (s.accounts payer) amount then amount else 0) ∧
      SameHolds s (refund s payer amount).1 := by
  unfold refund
  by_cases hl : 0 < (s.accounts payer).free + (s.accounts payer).reserved
  · obtain ⟨x, hx, hh, hf⟩ := Account.deposit_eq_some (s.accounts payer) amount
    have hc : s.accounts.change payer (Account.deposit · amount) =
        some (Function.update s.accounts payer x) := by
      rw [Ledger.change, hx, Option.map_some]
    have hs := Ledger.change_onHold hc fun y hy => by
      rw [hx] at hy
      cases hy
      exact hh
    have ht : TakesRefund (s.accounts payer) amount ↔
        T.existentialDeposit ≤ (s.accounts payer).free + amount := and_iff_right hl
    rw [if_pos hl, hc]
    refine ⟨?_, hs⟩
    dsimp only
    rw [Function.update_self, hf, Nat.add_sub_cancel_left]
    simp only [ht]
  · have hn : ¬ TakesRefund (s.accounts payer) amount := fun ht => hl ht.1
    rw [if_neg hl, if_neg hn]
    exact ⟨rfl, .of_accounts rfl⟩

theorem refund_le (s : State T) (payer : A) (amount : ℕ) : (refund s payer amount).2 ≤ amount := by
  rw [(refund_eq s payer amount).1]
  split_ifs
  · exact le_rfl
  · exact Nat.zero_le _

theorem correctAndDepositFee_sameHolds (s : State T) (info : Option (LiquidityInfo A))
    (corrected : ℕ) : SameHolds s (correctAndDepositFee s info corrected) := by
  cases info with
  | none => exact .of_accounts rfl
  | some info => exact (refund_eq s info.feePayer (info.paid - corrected)).2

def feeKept (s : State T) (info : Option (LiquidityInfo A)) (corrected : ℕ) : ℕ :=
  match info with
  | none => 0
  | some info => info.paid - (refund s info.feePayer (info.paid - corrected)).2

def keptOf (s : State T) (payer : A) : ℕ :=
  (s.history.map fun
    | .charged payer' paid refund => if payer' = payer then paid - refund else 0
    | .paired _ => 0
    | .unpaired _ _ => 0).sum

theorem keptOf_of_same (h : s'.history = s.history) (payer : A) :
    keptOf s' payer = keptOf s payer := by
  rw [keptOf, h, keptOf]

theorem Acts.keptOf_eq (h : Acts s s') (payer : A) : keptOf s' payer = keptOf s payer := by
  refine h.preserves (P := fun t => keptOf t payer = keptOf s payer) ?_ rfl
  intro t t' ha hq
  rw [← hq]
  cases ha with
  | aside h => exact keptOf_of_same h.history payer
  | creates id m h => exact keptOf_of_same h.history payer
  | pairs id a h => rw [keptOf, h.history, List.map_cons, List.sum_cons, Nat.zero_add, keptOf]
  | unpairs id m proc h =>
    rw [keptOf, h.history, List.map_cons, List.sum_cons, Nat.zero_add, keptOf]

theorem keptOf_correctAndDepositFee (s : State T) (info : Option (LiquidityInfo A)) (corrected : ℕ)
    {payer : A} (hp : ∀ i, info = some i → i.feePayer = payer) :
    keptOf (correctAndDepositFee s info corrected) payer =
      feeKept s info corrected + keptOf s payer := by
  cases info with
  | none => exact (Nat.zero_add _).symm
  | some info =>
    obtain rfl : info.feePayer = payer := hp info rfl
    have hh := (refund_aside s info.feePayer (info.paid - corrected)).history
    simp only [correctAndDepositFee, feeKept, keptOf, State.log, hh, List.map_cons,
      List.sum_cons, if_true]

theorem keptOf_le_correctAndDepositFee (s : State T) (info : Option (LiquidityInfo A))
    (corrected : ℕ) (a : A) : keptOf s a ≤ keptOf (correctAndDepositFee s info corrected) a := by
  rcases correctAndDepositFee_cases s info corrected with hs | ⟨payer, paid, refund, hc⟩
  · rw [hs]
  · rw [keptOf, keptOf, hc.history, List.map_cons, List.sum_cons]
    exact Nat.le_add_left _ _

/-! Over transactions. -/

theorem chargeTransaction_paired {manager : A} {id : ManagerId}
    (hm : lookupManager s tx.signer = some (manager, id)) (ho : manager ≠ tx.signer)
    (hu : isFundableCall tx.call = true) (h : chargeTransaction s tx = .ok (s', info)) :
    onHoldOf s' manager = onHoldOf s manager - min tx.fee (onHoldOf s manager) ∧
      (tx.fee = 0 ∧ info = none ∨ info = some ⟨tx.fee, manager⟩) := by
  simp only [chargeTransaction, bind_eq_ok] at h
  obtain ⟨val, hv, -, -, s₁, hr, hf⟩ := h
  have ha : s.processorToManagerIdIndex.lookup tx.signer ≠ none := by
    rw [(lookupManager_some hm).1]
    exact Option.some_ne_none id
  rw [onboardingValidate_noFund ha hv] at hr
  obtain rfl : s = s₁ := pure_eq_ok.mp hr
  have hp : feePayer s tx.signer tx.call = manager := by
    rw [feePayer, hm]
  have hh := withdrawFee_onHold hf manager
  have hn := withdrawFee_ok hf
  rw [hp, if_pos rfl, freedFor, hp, if_pos ⟨ho, hu⟩] at hh
  rw [hp] at hn
  refine ⟨hh, ?_⟩
  rcases hn with ⟨hz, -, hno⟩ | ⟨-, hs, -⟩
  · exact .inl ⟨hz, hno⟩
  · exact .inr hs

theorem runCall_sameHolds (apart : HoldsApart T) (s : State T) (tx : Transaction T) :
    SameHolds s (runCall s tx) :=
  transact_induction (P := SameHolds s) (fun _ => rfl) fun _ h => dispatchCall_sameHolds apart h

def Covered (s : State T) (tx : Transaction T) (payer : A) : Prop :=
  onHoldOf s payer ≤ tx.correctedFee ∨ tx.fee ≤ tx.correctedFee

theorem applyTransaction_holds (apart : HoldsApart T) (h : applyTransaction s tx = .ok s')
    (hco : feePayer s tx.signer tx.call ≠ tx.signer → isFundableCall tx.call = true →
      Covered s tx (feePayer s tx.signer tx.call)) (a : A) :
    onHoldOf s a + keptOf s a ≤ onHoldOf s' a + keptOf s' a := by
  simp only [applyTransaction, ok_iff] at h
  obtain ⟨⟨s₁, info⟩, hc, rfl⟩ := h
  have hk : keptOf (runCall s₁ tx) a = keptOf s a :=
    ((runCall_acts s₁ tx).keptOf_eq a).trans
      (keptOf_of_same (chargeTransaction_aside hc).history a)
  have hl : onHoldOf (correctAndDepositFee (runCall s₁ tx) info tx.correctedFee) a =
      onHoldOf s₁ a :=
    (correctAndDepositFee_sameHolds _ info tx.correctedFee a).trans (runCall_sameHolds apart s₁ tx a)
  simp only [chargeTransaction, bind_eq_ok] at hc
  obtain ⟨val, -, -, -, s₀, hr, hf⟩ := hc
  have hu := onboardingPrepare_onHold hr a
  have hp : feePayer s₀ tx.signer tx.call = feePayer s tx.signer tx.call := by
    rw [feePayer, (onboardingPrepare_aside hr).lookupManager_eq, feePayer]
  have hh := withdrawFee_onHold hf a
  rw [hp] at hh
  dsimp only
  by_cases hs : a = feePayer s tx.signer tx.call
  · have hn : ∀ i, info = some i → i.feePayer = a ∧ i.paid = tx.fee := by
      intro i hi
      rcases withdrawFee_ok hf with ⟨-, -, hno⟩ | ⟨-, ho, -⟩
      · cases hno.symm.trans hi
      · cases ho.symm.trans hi
        exact ⟨hp.trans hs.symm, rfl⟩
    have hfi := keptOf_correctAndDepositFee (runCall s₁ tx) info tx.correctedFee
      fun i hi => (hn i hi).1
    rw [if_pos hs, freedFor, hp, ← hs] at hh
    rw [← hs] at hco
    -- what is given back is at most the difference of the two fees
    have hb : tx.fee = 0 ∨ tx.fee - (tx.fee - tx.correctedFee) ≤
        feeKept (runCall s₁ tx) info tx.correctedFee := by
      rcases withdrawFee_ok hf with ⟨hz, -, -⟩ | ⟨-, ho, -⟩
      · exact .inl hz
      · rw [ho, feeKept]
        exact .inr (Nat.sub_le_sub_left (refund_le _ _ _) _)
    split_ifs at hh with hfr
    · have hv := hco hfr.1 hfr.2
      unfold Covered at hv
      omega
    · omega
  · have hg : keptOf s a ≤
        keptOf (correctAndDepositFee (runCall s₁ tx) info tx.correctedFee) a := by
      rw [← hk]
      exact keptOf_le_correctAndDepositFee _ info _ a
    rw [if_neg hs] at hh
    omega

def OnlyPays (s : State T) : Op T → Prop
  | .transaction tx => feePayer s tx.signer tx.call ≠ tx.signer → isFundableCall tx.call = true →
    Covered s tx (feePayer s tx.signer tx.call)
  | .outside _ accounts => ∀ a, (accounts a).onHold = onHoldOf s a
  | .dispatch _ _ => True
  | .pass _ => True

theorem step_holds (apart : HoldsApart T) {op : Op T} (hp : OnlyPays s op) (a : A) :
    onHoldOf s a + keptOf s a ≤ onHoldOf (step s op) a + keptOf (step s op) a := by
  cases op with
  | transaction tx =>
    exact transact_induction (P := fun t => _ ≤ onHoldOf t a + keptOf t a) le_rfl fun s' h =>
      applyTransaction_holds apart h hp a
  | dispatch o call =>
    refine transact_induction (P := fun t => _ ≤ onHoldOf t a + keptOf t a) le_rfl fun s' h => ?_
    rw [dispatch_sameHolds apart h a, (dispatch_acts h).keptOf_eq a]
  | pass milliseconds => exact le_rfl
  | outside world accounts => exact (congrArg (· + keptOf s a) (hp a)).ge

/-- Over a transaction of a processor whose fee its manager pays, the hold drops by no more than the
fee that is kept exactly if the corrected fee covers the hold, or nothing is to be given back, or
the account takes no refund after the call. Over every run of covered steps no hold drops by more
than the fees that are kept. -/
theorem onboarding_hold_pays_fees (apart : HoldsApart T) :
    (∀ (s s₁ s' : State T) (tx : Transaction T) (info : Option (LiquidityInfo A)) (manager : A)
        (id : ManagerId),
      lookupManager s tx.signer = some (manager, id) → manager ≠ tx.signer →
      isFundableCall tx.call = true → chargeTransaction s tx = .ok (s₁, info) →
      applyTransaction s tx = .ok s' →
      (onHoldOf s manager + keptOf s manager ≤ onHoldOf s' manager + keptOf s' manager ↔
        onHoldOf s manager ≤ tx.correctedFee ∨ tx.fee ≤ tx.correctedFee ∨
          ¬ TakesRefund ((runCall s₁ tx).accounts manager) (tx.fee - tx.correctedFee))) ∧
      ∀ (s : State T) (ops : List (Op T)), Along step OnlyPays s ops → ∀ a,
        onHoldOf s a + keptOf s a ≤ onHoldOf (run step s ops) a + keptOf (run step s ops) a := by
  constructor
  · intro s s₁ s' tx info manager id hm ho hf hc ha
    simp only [applyTransaction, hc, ok_iff, ok_eq_ok] at ha
    obtain ⟨_, rfl, rfl⟩ := ha
    obtain ⟨hh, hin⟩ := chargeTransaction_paired hm ho hf hc
    have hp : ∀ i, info = some i → i.feePayer = manager := by
      intro i hi
      rcases hin with ⟨-, hn⟩ | hs
      · cases hn.symm.trans hi
      · cases hs.symm.trans hi
        rfl
    have hl : onHoldOf (correctAndDepositFee (runCall s₁ tx) info tx.correctedFee) manager =
        onHoldOf s₁ manager :=
      (correctAndDepositFee_sameHolds _ info tx.correctedFee manager).trans
        (runCall_sameHolds apart s₁ tx manager)
    have hk : keptOf (runCall s₁ tx) manager = keptOf s manager :=
      ((runCall_acts s₁ tx).keptOf_eq manager).trans
        (keptOf_of_same (chargeTransaction_aside hc).history manager)
    rw [keptOf_correctAndDepositFee _ _ _ hp, hl, hk, hh]
    rcases hin with ⟨hz, hn⟩ | hs
    · rw [hn, feeKept]
      omega
    · rw [hs, feeKept]
      rw [(refund_eq _ _ _).1]
      split_ifs with ht
      · simp only [ht, not_true_eq_false, or_false]
        omega
      · simp only [ht, not_false_eq_true, or_true, iff_true]
        omega
  · intro s ops hr a
    induction ops generalizing s with
    | nil => exact le_rfl
    | cons op ops ih => exact (step_holds apart hr.1 a).trans (ih _ hr.2)

theorem mock_holdsApart : HoldsApart mock where
  commit _ _ _ _ _ _ := rfl
  advertise w l processor advertisement w' l' h a := by
    cases h
    rfl
  other w l origin call w' l' h a := by
    cases h
    rfl

def cheaperHeartbeat : Transaction mock :=
  ⟨8, .processorManager (.heartbeatWithVersion ⟨0, 0⟩), 10, 4⟩

/-- The hold of the manager drops by 10, and 4 are kept. -/
theorem onboarding_hold_turns_free : ∃ s', applyTransaction allPaired cheaperHeartbeat = .ok s' ∧
      lookupManager allPaired cheaperHeartbeat.signer = some (1, 1) ∧
      isFundableCall cheaperHeartbeat.call = true ∧
      cheaperHeartbeat.correctedFee ≤ cheaperHeartbeat.fee ∧
      ¬ (onHoldOf allPaired 1 + keptOf allPaired 1 ≤ onHoldOf s' 1 + keptOf s' 1) := by
  have hr : ((applyTransaction allPaired cheaperHeartbeat).toOption.map fun s' =>
      decide (onHoldOf allPaired 1 + keptOf allPaired 1 ≤ onHoldOf s' 1 + keptOf s' 1)) =
        some false := by
    decide +kernel
  obtain ⟨s', ho, hd⟩ := Option.map_eq_some_iff.mp hr
  exact ⟨s', toOption_eq_some.mp ho, by decide +kernel, rfl, by decide, of_decide_eq_false hd⟩

def heartbeatOfEight : Transaction mock :=
  ⟨8, .processorManager (.heartbeatWithVersion ⟨0, 0⟩), 10, 10⟩

theorem onboarding_hold_pays_fees_heartbeatOfEight :
    ∃ s', applyTransaction allPaired heartbeatOfEight = .ok s' ∧
      onHoldOf allPaired 1 + keptOf allPaired 1 ≤ onHoldOf s' 1 + keptOf s' 1 := by
  have hm : lookupManager allPaired heartbeatOfEight.signer = some (1, 1) := by
    decide +kernel
  have ho : 1 ≠ heartbeatOfEight.signer := by decide
  have hv : (chargeTransaction allPaired heartbeatOfEight).isOk = true := by decide +kernel
  obtain ⟨⟨s₁, info⟩, hc⟩ := isOk_iff.mp hv
  have ha : applyTransaction allPaired heartbeatOfEight = .ok
      (correctAndDepositFee (runCall s₁ heartbeatOfEight) info heartbeatOfEight.correctedFee) := by
    rw [applyTransaction, hc]
    rfl
  have hf := (onboarding_hold_pays_fees mock_holdsApart).1 _ _ _ _ _ _ _ hm ho rfl hc ha
  exact ⟨_, ha, hf.mpr (.inr (.inl (by decide)))⟩

end Acurast.ProcessorManager
