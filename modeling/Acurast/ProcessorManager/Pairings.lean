import Mathlib.Logic.Relation
import Acurast.ProcessorManager.Transaction

/-! What calls and transactions do to pairings: whatever happens comes down to a few acts, and every
new pairing comes with a proof that was valid when it was made. -/

namespace Acurast.ProcessorManager

open Base

variable {A : Type} {T : Config A}

namespace Accepted

def signer (a : Accepted T) : A :=
  match a.pairedBy with
  | .manager => a.processor
  | .processor => a.manager

def signed (a : Accepted T) (timestamp : ℕ) : Bytes :=
  match a.counter with
  | some counter => message T a.manager timestamp counter
  | none => multiMessage T a.manager timestamp

end Accepted

def Genuine (a : Accepted T) : Prop :=
  ∃ proof, a.pairing.proof = some proof ∧ proof.timestamp ≤ a.time ∧
    a.time < proof.timestamp + T.pairingProofExpirationTime ∧
    T.verify proof.signature (a.signed proof.timestamp) a.signer = true

variable {pairing : ProcessorPairing A T.Signature} {P : State T → Prop} {id : ManagerId}
  {manager mgr processor proc who : A} {isMulti : Bool} {call : RuntimeCall T} {fee : ℕ}
  {info : Option (LiquidityInfo A)} {val : Val A} {tx : Transaction T}

theorem exists_proof_of_validateTimestamp {s : State T} (h : validateTimestamp s pairing = true) :
    ∃ proof, pairing.proof = some proof ∧ proof.timestamp ≤ s.now ∧
      s.now < proof.timestamp + T.pairingProofExpirationTime := by
  unfold validateTimestamp at h
  cases hp : pairing.proof with
  | none =>
    rw [hp] at h
    cases h
  | some proof =>
    rw [hp] at h
    dsimp only at h
    split at h
    · next diff hd =>
      obtain ⟨hl, hs⟩ := checkedSub_eq_some.mp hd
      obtain ⟨-, ht⟩ := of_decide_eq_true h
      exact ⟨proof, rfl, hl, by omega⟩
    · cases h

variable [DecidableEq A] {s s' s'' : State T}

structure Aside (s s' : State T) : Prop where
  owners : s'.owners = s.owners
  index : s'.processorToManagerIdIndex = s.processorToManagerIdIndex
  counter : s'.managerCounter = s.managerCounter
  history : s'.history = s.history

structure Creates (s s' : State T) (id : ManagerId) (manager : A) : Prop where
  fresh : s.owners.lookup id = none
  now : s'.now = s.now
  owners : s'.owners = s.owners.insert id manager
  index : s'.processorToManagerIdIndex = s.processorToManagerIdIndex
  counter : s'.managerCounter = s.managerCounter
  history : s'.history = s.history

structure Pairs (s s' : State T) (id : ManagerId) (a : Accepted T) : Prop where
  owner : s.owners.lookup id = some a.manager
  unpaired : s.processorToManagerIdIndex.lookup a.processor = none
  genuine : Genuine a
  next : ∀ counter, a.counter = some counter → counter = s.managerCounter.getD a.manager 0 + 1
  owners : s'.owners = s.owners
  index : s'.processorToManagerIdIndex = s.processorToManagerIdIndex.insert a.processor id
  counter : s'.managerCounter = insertCounter s.managerCounter a.manager a.counter
  history : s'.history = .paired a :: s.history

structure Unpairs (s s' : State T) (id : ManagerId) (manager processor : A) : Prop where
  owner : s.owners.lookup id = some manager
  paired : s.processorToManagerIdIndex.lookup processor = some id
  owners : s'.owners = s.owners
  index : s'.processorToManagerIdIndex = s.processorToManagerIdIndex.erase processor
  counter : s'.managerCounter = s.managerCounter
  history : s'.history = .unpaired manager processor :: s.history

inductive Act (s s' : State T) : Prop
  | aside (h : Aside s s')
  | creates (id : ManagerId) (manager : A) (h : Creates s s' id manager)
  | pairs (id : ManagerId) (a : Accepted T) (h : Pairs s s' id a)
  | unpairs (id : ManagerId) (manager processor : A) (h : Unpairs s s' id manager processor)

structure Charges (s s' : State T) (payer : A) (paid refund : ℕ) : Prop where
  owners : s'.owners = s.owners
  index : s'.processorToManagerIdIndex = s.processorToManagerIdIndex
  counter : s'.managerCounter = s.managerCounter
  history : s'.history = .charged payer paid refund :: s.history

def Acts : State T → State T → Prop := Relation.ReflTransGen Act

theorem Acts.refl (s : State T) : Acts s s := Relation.ReflTransGen.refl

theorem Acts.of_act (h : Act s s') : Acts s s' := Relation.ReflTransGen.single h

theorem Acts.of_aside (h : Aside s s') : Acts s s' := .of_act (.aside h)

theorem Acts.trans (h : Acts s s') (h' : Acts s' s'') : Acts s s'' := Relation.ReflTransGen.trans h h'

theorem Acts.preserves (ha : ∀ s s' : State T, Act s s' → P s → P s') (h : Acts s s') (hs : P s) :
    P s' := by
  induction h with
  | refl => exact hs
  | tail _ hl ih => exact ha _ _ hl ih

structure Keeps (P : State T → Prop) : Prop where
  act : ∀ s s' : State T, Act s s' → P s → P s'
  charges : ∀ (s s' : State T) payer paid refund, Charges s s' payer paid refund → P s → P s'

omit [DecidableEq A] in
theorem Aside.rfl (s : State T) : Aside s s := ⟨Eq.refl _, Eq.refl _, Eq.refl _, Eq.refl _⟩

omit [DecidableEq A] in
theorem Aside.trans (h : Aside s s') (h' : Aside s' s'') : Aside s s'' :=
  ⟨h'.owners.trans h.owners, h'.index.trans h.index, h'.counter.trans h.counter,
    h'.history.trans h.history⟩

omit [DecidableEq A] in
theorem put_aside (s : State T) (w : T.World × Ledger A T.existentialDeposit T.maxConsumers) :
    Aside s (s.put w) :=
  ⟨Eq.refl _, Eq.refl _, Eq.refl _, Eq.refl _⟩

theorem ownerFor_of_managerIdFor (h : managerIdFor s manager = some id) :
    s.owners.lookup id = some manager := by
  obtain ⟨e, hf, rfl⟩ := Option.map_eq_some_iff.mp h
  have ho := List.find?_some hf
  have hm := List.mem_of_find?_eq_some hf
  rw [decide_eq_true_eq] at ho
  rw [← ho]
  exact mem_entries_iff.mp hm

theorem doGetOrCreateManagerId_ok (h : doGetOrCreateManagerId s mgr = .ok (s', id)) :
    s'.owners.lookup id = some mgr ∧ (s' = s ∨ Creates s s' id mgr) := by
  unfold doGetOrCreateManagerId at h
  cases hd : managerIdFor s mgr with
  | some id' =>
    rw [hd] at h
    obtain ⟨rfl, rfl⟩ := h
    exact ⟨ownerFor_of_managerIdFor hd, .inl rfl⟩
  | none =>
    rw [hd] at h
    simp only [createManagerId, ok_iff, Prod.mk.injEq] at h
    obtain ⟨id', -, s₁, ⟨-, hf, rfl⟩, rfl, rfl⟩ := h
    refine ⟨?_, .inr ⟨hf, rfl, rfl, rfl, rfl, rfl⟩⟩
    exact AList.lookup_insert _

theorem doGetOrCreateManagerId_acts (h : doGetOrCreateManagerId s mgr = .ok (s', id)) :
    Acts s s' := by
  obtain ⟨-, rfl | hc⟩ := doGetOrCreateManagerId_ok h
  · exact .refl _
  · exact .of_act (.creates id mgr hc)

theorem doAddProcessorManagerPairing_ok (h : doAddProcessorManagerPairing s proc id = .ok s') :
    s.processorToManagerIdIndex.lookup proc = none ∧ s' = { s with
      managedProcessors := s.managedProcessors.insert (id, proc) ()
      processorToManagerIdIndex := s.processorToManagerIdIndex.insert proc id } := by
  unfold doAddProcessorManagerPairing at h
  cases hn : s.processorToManagerIdIndex.lookup proc with
  | some id' =>
    rw [hn] at h
    cases h
  | none =>
    rw [hn] at h
    exact ⟨rfl, (pure_eq_ok.mp h).symm⟩

theorem nextCounter_ok {counter : Counter} (h : nextCounter s mgr = .ok counter) :
    counter = s.managerCounter.getD mgr 0 + 1 :=
  (checkedAdd_eq_some.mp (okOr_eq_ok.mp h)).1.symm

theorem addProcessor_acts {item : ProcessorPairing A T.Signature}
    (ho : s.owners.lookup id = some who) (h : addProcessor s who id item = .ok s') :
    Acts s s' ∧ s'.owners = s.owners := by
  simp only [addProcessor, ok_iff] at h
  obtain ⟨-, ht, counter, hco, -, hs, s₁, ha, rfl⟩ := h
  obtain ⟨hn, rfl⟩ := doAddProcessorManagerPairing_ok ha
  obtain ⟨proof, hp, hl, hlt⟩ := exists_proof_of_validateTimestamp ht
  have hg : Genuine (T := T) ⟨.manager, who, item.account, item, some counter, s.now⟩ := by
    refine ⟨proof, hp, hl, hlt, ?_⟩
    unfold validateSignature at hs
    rw [hp] at hs
    exact hs
  have hne : ∀ c, some counter = some c → c = s.managerCounter.getD who 0 + 1 := by
    intro c hc
    cases hc
    exact nextCounter_ok hco
  exact ⟨.of_act (.pairs id _ ⟨ho, hn, hg, hne, rfl, rfl, rfl, rfl⟩), rfl⟩

theorem ensureManaged_ok (h : ensureManaged s manager processor = .ok id) :
    s.processorToManagerIdIndex.lookup processor = some id ∧ s.owners.lookup id = some manager := by
  simp only [ensureManaged, ok_iff] at h
  obtain ⟨id', hn, owner, ho, -, rfl, rfl⟩ := h
  exact ⟨hn, ho⟩

theorem doRemoveProcessorManagerPairing_acts
    (h : doRemoveProcessorManagerPairing s proc mgr = .ok s') :
    Acts s s' ∧ s'.owners = s.owners := by
  simp only [doRemoveProcessorManagerPairing, ok_iff] at h
  obtain ⟨id, hm, rfl⟩ := h
  obtain ⟨hn, ho⟩ := ensureManaged_ok hm
  exact ⟨.of_act (.unpairs id mgr proc ⟨ho, hn, rfl, rfl, rfl, rfl⟩), rfl⟩

theorem updateProcessorPairings_acts {ups : List (ProcessorPairingUpdate A T.Signature)}
    (h : updateProcessorPairings s who ups = .ok s') : Acts s s' := by
  simp only [updateProcessorPairings, bind_eq_ok] at h
  obtain ⟨⟨s₁, id⟩, hd, hl⟩ := h
  have hw := (doGetOrCreateManagerId_ok hd).1
  -- the loop keeps the owner of the id, which every addition relies on
  have hn : Acts s s' ∧ s'.owners = s₁.owners := by
    refine foldlM_invariant (P := fun t => Acts s t ∧ t.owners = s₁.owners) ?_ hl
      ⟨doGetOrCreateManagerId_acts hd, rfl⟩
    rintro t update t' hu ⟨ha, ho⟩
    unfold updatePairing at hu
    have hs : Acts t t' ∧ t'.owners = t.owners := by
      cases hp : update.operation with
      | add =>
        rw [hp] at hu
        exact addProcessor_acts (ho ▸ hw) hu
      | remove =>
        rw [hp] at hu
        exact doRemoveProcessorManagerPairing_acts hu
    exact ⟨ha.trans hs.1, hs.2.trans ho⟩
  exact hn.1

theorem doValidatePairing_ok {counter : Option Counter}
    (h : doValidatePairing s pairing isMulti = .ok counter) (who : A) :
    Genuine (T := T) ⟨.processor, pairing.account, who, pairing, counter, s.now⟩ ∧
      ∀ c, counter = some c → c = s.managerCounter.getD pairing.account 0 + 1 := by
  simp only [doValidatePairing, ok_iff] at h
  obtain ⟨-, hti, hs⟩ := h
  obtain ⟨proof, hp, hl, ht⟩ := exists_proof_of_validateTimestamp hti
  cases isMulti with
  | true =>
    simp only [if_true, ok_iff] at hs
    obtain ⟨-, hv, rfl⟩ := hs
    unfold multiValidateSignature at hv
    rw [hp] at hv
    refine ⟨⟨proof, hp, hl, ht, hv⟩, ?_⟩
    intro c hc
    cases hc
  | false =>
    simp only [Bool.false_eq_true, if_false, ok_iff] at hs
    obtain ⟨c', hn, -, hv, rfl⟩ := hs
    unfold validateSignature at hv
    rw [hp] at hv
    refine ⟨⟨proof, hp, hl, ht, hv⟩, ?_⟩
    intro c hc
    cases hc
    exact nextCounter_ok hn

theorem pairWith_acts (h : pairWith s who pairing isMulti = .ok s') : Acts s s' := by
  simp only [pairWith, ok_iff] at h
  obtain ⟨counter, hv, ⟨s₁, id⟩, hd, s₂, ha, rfl⟩ := h
  obtain ⟨hg, hne⟩ := doValidatePairing_ok hv who
  obtain ⟨ho, hr⟩ := doGetOrCreateManagerId_ok hd
  obtain ⟨hn, rfl⟩ := doAddProcessorManagerPairing_ok ha
  rcases hr with rfl | hc
  · exact .of_act (.pairs id _ ⟨ho, hn, hg, hne, rfl, rfl, rfl, rfl⟩)
  · -- the id is created with the counter stored already; the counter belongs to the pairing
    have hb : Creates s { s with owners := s.owners.insert id pairing.account } id
        pairing.account := ⟨hc.fresh, rfl, rfl, rfl, rfl, rfl⟩
    refine (Acts.of_act (.creates id pairing.account hb)).trans (.of_act (.pairs id _
      ⟨?_, ?_, hg, hne, ?_, ?_, ?_, ?_⟩))
    · exact AList.lookup_insert _
    · rw [hc.index] at hn
      exact hn
    · exact hc.owners
    · exact congrArg (AList.insert who id) hc.index
    · exact hc.counter
    · rw [State.log, hc.history, hc.now]

theorem recoverAssets_aside {dest : A} (h : recoverAssets s proc dest = .ok s') :
    Aside s s' := by
  unfold recoverAssets at h
  dsimp only at h
  split_ifs at h with hp
  · simp only [ok_iff] at h
    obtain ⟨burned, -, minted, -, rfl⟩ := h
    exact ⟨rfl, rfl, rfl, rfl⟩
  · cases h
    exact .rfl s

theorem commitFor_aside (s : State T) (who : A) (ms : T.Metrics) :
    Aside s (commitFor s who ms) := by
  unfold commitFor
  split_ifs
  · split
    · exact put_aside s _
    · exact .rfl s
  · exact .rfl s

theorem heartbeatWithMetrics_aside {version : Version} {ms : T.Metrics}
    (h : heartbeatWithMetrics s who version ms = .ok s') : Aside s s' := by
  simp only [heartbeatWithMetrics, ok_iff] at h
  obtain ⟨-, -, rfl⟩ := h
  have hs : Aside s { s with
      processorHeartbeat := s.processorHeartbeat.insert who s.now
      processorVersion := s.processorVersion.insert who version } := ⟨rfl, rfl, rfl, rfl⟩
  exact hs.trans (commitFor_aside _ who ms)

theorem setProcessorUpdateInfo_aside {updateInfo : UpdateInfo} {procs : List A}
    (h : setProcessorUpdateInfo s who updateInfo procs = .ok s') : Aside s s' := by
  simp only [setProcessorUpdateInfo, bind_eq_ok] at h
  obtain ⟨-, -, hl⟩ := h
  refine foldlM_invariant (P := Aside s) ?_ hl (.rfl s)
  intro t proc t' hs ha
  simp only [setUpdateInfoOf, ok_iff] at hs
  obtain ⟨id, -, rfl⟩ := hs
  exact ha.trans ⟨rfl, rfl, rfl, rfl⟩

theorem setManagementEndpoint_acts {endpoint : Option Bytes}
    (h : setManagementEndpoint s who endpoint = .ok s') : Acts s s' := by
  simp only [setManagementEndpoint, ok_iff] at h
  obtain ⟨⟨s₁, id⟩, hd, rfl⟩ := h
  refine (doGetOrCreateManagerId_acts hd).trans (.of_aside ?_)
  cases endpoint <;> exact ⟨rfl, rfl, rfl, rfl⟩

theorem dispatchSigned_acts {call : Call T} (h : dispatchSigned s who call = .ok s') :
    Acts s s' := by
  cases call with
  | updateProcessorPairings ups => exact updateProcessorPairings_acts h
  | pairWithManager pairing => exact pairWith_acts h
  | multiPairWithManager pairing => exact pairWith_acts h
  | recoverFunds proc dest =>
    simp only [dispatchSigned, recoverFunds, bind_eq_ok] at h
    obtain ⟨p, -, id, -, d, -, hr⟩ := h
    exact .of_aside (recoverAssets_aside hr)
  | heartbeat =>
    simp only [dispatchSigned, heartbeat, ok_iff] at h
    obtain ⟨-, -, rfl⟩ := h
    exact .of_aside ⟨rfl, rfl, rfl, rfl⟩
  | advertiseFor proc ad =>
    simp only [dispatchSigned, advertiseFor, ok_iff] at h
    obtain ⟨p, -, id, -, w, -, rfl⟩ := h
    exact .of_aside (put_aside s w)
  | heartbeatWithVersion version => exact .of_aside (heartbeatWithMetrics_aside h)
  | setProcessorUpdateInfo updateInfo procs => exact .of_aside (setProcessorUpdateInfo_aside h)
  | heartbeatWithMetrics version ms => exact .of_aside (heartbeatWithMetrics_aside h)
  | setManagementEndpoint endpoint => exact setManagementEndpoint_acts h
  | onboard pairing multi attestationChain =>
    simp only [dispatchSigned, onboard, bind_eq_ok] at h
    obtain ⟨-, -, hp⟩ := h
    have hs : Aside s { s with world := T.storeAttestation s.world attestationChain who } :=
      ⟨rfl, rfl, rfl, rfl⟩
    exact (Acts.of_aside hs).trans (pairWith_acts hp)
  | updateBinaryHash _ _ => cases h
  | updateMinProcessorVersionForReward _ => cases h
  | updateOnboardingSettings _ => cases h

theorem dispatch_acts {o : Origin A} {call : Call T} (h : dispatch s o call = .ok s') :
    Acts s s' := by
  unfold dispatch at h
  split at h
  · next version hash =>
    simp only [ok_iff] at h
    obtain ⟨-, -, rfl⟩ := h
    refine .of_aside ?_
    cases hash <;> exact ⟨rfl, rfl, rfl, rfl⟩
  · simp only [ok_iff] at h
    obtain ⟨-, -, rfl⟩ := h
    exact .of_aside ⟨rfl, rfl, rfl, rfl⟩
  · simp only [ok_iff] at h
    obtain ⟨-, -, rfl⟩ := h
    exact .of_aside ⟨rfl, rfl, rfl, rfl⟩
  · simp only [bind_eq_ok] at h
    obtain ⟨who, -, hs⟩ := h
    exact dispatchSigned_acts hs

theorem dispatchCall_acts {o : Origin A} (h : dispatchCall s o call = .ok s') :
    Acts s s' := by
  cases call with
  | processorManager call => exact dispatch_acts h
  | other call =>
    simp only [dispatchCall, ok_iff] at h
    obtain ⟨w, -, rfl⟩ := h
    exact .of_aside (put_aside s w)

theorem releaseFeeFunds_aside (s : State T) (a : A) (fee : ℕ) :
    Aside s (releaseFeeFunds s a fee) := by
  unfold releaseFeeFunds
  split <;> exact ⟨rfl, rfl, rfl, rfl⟩

theorem beforeFee_aside (s : State T) (who : A) (call : RuntimeCall T) (fee : ℕ) :
    Aside s (beforeFee s who call fee) := by
  unfold beforeFee
  split_ifs
  · exact releaseFeeFunds_aside s _ fee
  · exact .rfl s

theorem withdrawFee_ok (h : withdrawFee s who call fee = .ok (s', info)) :
    (fee = 0 ∧ s' = s ∧ info = none) ∨
      0 < fee ∧ info = some ⟨fee, feePayer s who call⟩ ∧ ∃ accounts,
        (beforeFee s who call fee).accounts.change (feePayer s who call)
          (Account.withdraw · fee .preserve) = some accounts ∧
        s' = { beforeFee s who call fee with accounts := accounts } := by
  unfold withdrawFee at h
  split_ifs at h with hz
  · simp only [pure_eq_ok, Prod.mk.injEq] at h
    exact .inl ⟨hz, h.1.symm, h.2.symm⟩
  · simp only [ok_iff, Prod.mk.injEq] at h
    obtain ⟨accounts, hc, hs', hn⟩ := h
    exact .inr ⟨Nat.pos_of_ne_zero hz, hn.symm, accounts, hc, hs'.symm⟩

theorem withdrawFee_aside (h : withdrawFee s who call fee = .ok (s', info)) : Aside s s' := by
  rcases withdrawFee_ok h with ⟨-, rfl, -⟩ | ⟨-, -, accounts, -, rfl⟩
  · exact .rfl _
  · exact (beforeFee_aside s who call fee).trans ⟨rfl, rfl, rfl, rfl⟩

theorem onboardingPrepare_ok (h : onboardingPrepare s val = .ok s') :
    s' = s ∨ ∃ fromAccount toAccount x, val = .fund fromAccount toAccount x ∧
      fund s fromAccount toAccount x = .ok s' := by
  cases val with
  | noFund => exact .inl (pure_eq_ok.mp h).symm
  | fund fromAccount toAccount x =>
    refine .inr ⟨fromAccount, toAccount, x, rfl, ?_⟩
    unfold onboardingPrepare at h
    dsimp only at h
    split at h
    · next s₁ hf => rw [hf, pure_eq_ok.mp h]
    · cases h

theorem fund_aside {fromAccount toAccount : A} {x : ℕ}
    (h : fund s fromAccount toAccount x = .ok s') : Aside s s' := by
  simp only [fund, ok_iff] at h
  obtain ⟨paid, -, held, -, rfl⟩ := h
  exact ⟨rfl, rfl, rfl, rfl⟩

theorem onboardingPrepare_aside (h : onboardingPrepare s val = .ok s') : Aside s s' := by
  rcases onboardingPrepare_ok h with rfl | ⟨fromAccount, toAccount, x, -, hf⟩
  · exact .rfl _
  · exact fund_aside hf

theorem chargeTransaction_aside (h : chargeTransaction s tx = .ok (s', info)) : Aside s s' := by
  simp only [chargeTransaction, bind_eq_ok] at h
  obtain ⟨val, -, -, -, s₁, hp, hf⟩ := h
  exact (onboardingPrepare_aside hp).trans (withdrawFee_aside hf)

theorem refund_aside (s : State T) (payer : A) (x : ℕ) : Aside s (refund s payer x).1 := by
  unfold refund
  split_ifs
  · split <;> exact ⟨rfl, rfl, rfl, rfl⟩
  · exact .rfl s

theorem correctAndDepositFee_cases (s : State T) (info : Option (LiquidityInfo A)) (corrected : ℕ) :
    correctAndDepositFee s info corrected = s ∨ ∃ payer paid refund,
      Charges s (correctAndDepositFee s info corrected) payer paid refund := by
  cases info with
  | none => exact .inl rfl
  | some info =>
    have ha := refund_aside s info.feePayer (info.paid - corrected)
    exact .inr ⟨info.feePayer, info.paid, _, ha.owners, ha.index, ha.counter, congrArg _ ha.history⟩

theorem runCall_acts (s : State T) (tx : Transaction T) : Acts s (runCall s tx) :=
  transact_induction (.refl s) fun _ h => dispatchCall_acts h

theorem Keeps.applyTransaction (hP : Keeps P) (h : applyTransaction s tx = .ok s') (hs : P s) :
    P s' := by
  simp only [ProcessorManager.applyTransaction, ok_iff] at h
  obtain ⟨⟨s₁, info⟩, hh, rfl⟩ := h
  have hb : P s₁ := hP.act s s₁ (.aside (chargeTransaction_aside hh)) hs
  have hc : P (runCall s₁ tx) := (runCall_acts s₁ tx).preserves hP.act hb
  rcases correctAndDepositFee_cases (runCall s₁ tx) info tx.correctedFee with
    ha | ⟨payer, paid, refund, hch⟩
  · rw [ha]
    exact hc
  · exact hP.charges _ _ _ _ _ hch hc

theorem Keeps.step (hP : Keeps P) (s : State T) (op : Op T) (hs : P s) : P (step s op) := by
  cases op with
  | transaction tx => exact transact_induction hs fun s' h => hP.applyTransaction h hs
  | dispatch o call =>
    exact transact_induction hs fun s' h => (dispatch_acts h).preserves hP.act hs
  | pass milliseconds => exact hP.act s _ (.aside ⟨rfl, rfl, rfl, rfl⟩) hs
  | outside w accounts => exact hP.act s _ (.aside ⟨rfl, rfl, rfl, rfl⟩) hs

theorem Keeps.run (hP : Keeps P) (ops : List (Op T)) (hs : P s) :
    P (run ProcessorManager.step s ops) :=
  run_invariant' hP.step ops hs

end Acurast.ProcessorManager
