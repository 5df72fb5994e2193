import Acurast.ProcessorManager.Mock
import Acurast.ProcessorManager.Pairings

/-! Who pays the fees of others. A manager does for the processors it is paired with, and a pairing
always goes back to a call or a signature of the manager. -/

namespace Acurast.ProcessorManager

open Base

variable {A : Type} {T : Config A} {s s' : State T}

def Stands (s : State T) (a : Accepted T) : Prop :=
  ∃ later earlier, s.history = later ++ .paired a :: earlier ∧
    .unpaired a.manager a.processor ∉ later

theorem Stands.mem (h : Stands s a) : .paired a ∈ s.history := by
  obtain ⟨later, earlier, hh, -⟩ := h
  rw [hh]
  exact List.mem_append_right later List.mem_cons_self

variable {a : Accepted T} {id : ManagerId} {manager mgr processor proc : A}

theorem Stands.of_same (h : Stands s a) (hh : s'.history = s.history) : Stands s' a := by
  unfold Stands
  rw [hh]
  exact h

theorem Stands.cons {e : Entry T} (h : Stands s a) (hh : s'.history = e :: s.history)
    (hne : e ≠ .unpaired a.manager a.processor) : Stands s' a := by
  obtain ⟨later, earlier, hb, hn⟩ := h
  refine ⟨e :: later, earlier, ?_, ?_⟩
  · rw [hh, hb, List.cons_append]
  · intro hin
    rcases List.mem_cons.mp hin with hq | hold
    · exact hne hq.symm
    · exact hn hold

theorem Stands.new (hh : s'.history = .paired a :: s.history) : Stands s' a :=
  ⟨[], s.history, hh, List.not_mem_nil⟩

variable [DecidableEq A]

def Founded (s : State T) : Prop :=
  ∀ processor id, s.processorToManagerIdIndex.lookup processor = some id →
    ∃ a : Accepted T, s.owners.lookup id = some a.manager ∧ a.processor = processor ∧ Genuine a ∧
      Stands s a

theorem Founded.same (hs : Founded s) (ho : s'.owners = s.owners)
    (hn : s'.processorToManagerIdIndex = s.processorToManagerIdIndex)
    (ht : ∀ a, Stands s a → Stands s' a) : Founded s' := by
  intro proc id hl
  rw [hn] at hl
  obtain ⟨a, hw, hp, hg, hold⟩ := hs proc id hl
  exact ⟨a, ho ▸ hw, hp, hg, ht a hold⟩

theorem Founded.creates (hs : Founded s) (h : Creates s s' id mgr) : Founded s' := by
  intro proc id' hl
  rw [h.index] at hl
  obtain ⟨a, ho, hp, hg, hold⟩ := hs proc id' hl
  refine ⟨a, ?_, hp, hg, hold.of_same h.history⟩
  rw [h.owners, lookup_insert_eq, if_neg]
  · exact ho
  · rintro rfl
    rw [h.fresh] at ho
    cases ho

theorem Founded.pairs (hs : Founded s) (h : Pairs s s' id a) : Founded s' := by
  intro proc id' hl
  rw [h.index, lookup_insert_eq] at hl
  rw [h.owners]
  split_ifs at hl with ha
  · cases hl
    exact ⟨a, h.owner, ha.symm, h.genuine, .new h.history⟩
  · obtain ⟨b, ho, hp, hg, hold⟩ := hs proc id' hl
    refine ⟨b, ho, hp, hg, hold.cons h.history ?_⟩
    intro hq
    cases hq

theorem Founded.unpairs (hs : Founded s) (h : Unpairs s s' id mgr proc) : Founded s' := by
  intro processor' id' hl
  rw [h.index, lookup_erase_eq] at hl
  rw [h.owners]
  split_ifs at hl with ha
  obtain ⟨a, ho, hp, hg, hold⟩ := hs processor' id' hl
  refine ⟨a, ho, hp, hg, hold.cons h.history ?_⟩
  intro hq
  cases hq
  exact ha hp.symm

theorem keeps_founded : Keeps (Founded : State T → Prop) where
  act s s' h hs := by
    cases h with
    | aside h => exact hs.same h.owners h.index fun a hold => hold.of_same h.history
    | creates id mgr h => exact hs.creates h
    | pairs id a h => exact hs.pairs h
    | unpairs id mgr proc h => exact hs.unpairs h
  charges s s' payer paid refund h hs := by
    refine hs.same h.owners h.index fun a hold => hold.cons h.history ?_
    intro hq
    cases hq

theorem run_founded (w : T.World) (accounts : Ledger A T.existentialDeposit T.maxConsumers)
    (ops : List (Op T)) : Founded (run step (State.genesis T w accounts) ops) := by
  apply keeps_founded.run
  intro proc id hl
  cases hl

theorem Aside.lookupManager_eq (h : Aside s s') (processor : A) :
    lookupManager s' processor = lookupManager s processor := by
  simp only [lookupManager, ownerFor, h.owners, h.index]

theorem lookupManager_some (h : lookupManager s processor = some (manager, id)) :
    s.processorToManagerIdIndex.lookup processor = some id ∧ s.owners.lookup id = some manager := by
  simp only [lookupManager, ownerFor, bind, Option.bind_eq_some_iff, pure, Option.some.injEq,
    Prod.mk.injEq] at h
  obtain ⟨id', hn, owner, ho, rfl, rfl⟩ := h
  exact ⟨hn, ho⟩

/-- The manager added the processor by its own call and did not remove it since, or it signed a
proof that was accepted when the processor was paired. -/
def Consents (Signed : A → Bytes → Prop) (s : State T) (manager processor : A) : Prop :=
  ∃ a : Accepted T, a.manager = manager ∧ a.processor = processor ∧ .paired a ∈ s.history ∧
    (a.pairedBy = .manager ∧ Stands s a ∨
      a.pairedBy = .processor ∧ ∃ timestamp, Signed manager (a.signed timestamp))

def Brings (Signed : A → Bytes → Prop) (s : State T) (call : RuntimeCall T) (manager : A) : Prop :=
  ∃ pairing isMulti attestationChain counter proof,
    pairingForCall call = some (pairing, isMulti, attestationChain) ∧ pairing.account = manager ∧
      doValidatePairing s pairing isMulti = .ok counter ∧ pairing.proof = some proof ∧
      Signed manager (match counter with
        | some counter => message T manager proof.timestamp counter
        | none => multiMessage T manager proof.timestamp)

theorem onboardingValidate_pairing {who : A} {call : RuntimeCall T} {val : Val A}
    {pair : ProcessorPairing A T.Signature} {isMulti : Bool}
    {attestationChain : Option T.AttestationChain} (h : onboardingValidate s who call = .ok val)
    (hc : pairingForCall call = some (pair, isMulti, attestationChain)) :
    ∃ counter, doValidatePairing s pair isMulti = .ok counter := by
  unfold onboardingValidate at h
  rw [hc] at h
  rw [bind_eq_ok] at h
  obtain ⟨u, hn, -⟩ := h
  exact isOk_iff.mp (ensure_eq_ok.mp hn)

/-- In every run, who is charged for a transaction of another account consented to pairing with it,
or signed a proof in the transaction. -/
theorem fee_payer_consents {Signed : A → Bytes → Prop}
    (hunforgeable : ∀ signature m account, T.verify signature m account = true → Signed account m)
    (world : T.World) (accounts : Ledger A T.existentialDeposit T.maxConsumers) (ops : List (Op T))
    {tx : Transaction T} {info : LiquidityInfo A}
    (hs : s = run step (State.genesis T world accounts) ops)
    (hcharge : chargeTransaction s tx = .ok (s', some info)) (hother : info.feePayer ≠ tx.signer) :
    Consents Signed s info.feePayer tx.signer ∨ Brings Signed s tx.call info.feePayer := by
  have hfo : Founded s := hs ▸ run_founded world accounts ops
  simp only [chargeTransaction, bind_eq_ok] at hcharge
  obtain ⟨val, hva, -, -, s₁, hr, hf⟩ := hcharge
  have hp : info.feePayer = feePayer s₁ tx.signer tx.call := by
    rcases withdrawFee_ok hf with ⟨-, -, hno⟩ | ⟨-, hn, -⟩
    · cases hno
    · cases hn
      rfl
  rw [feePayer, (onboardingPrepare_aside hr).lookupManager_eq] at hp
  rw [hp] at hother ⊢
  cases hm : lookupManager s tx.signer with
  | some found =>
    obtain ⟨manager, id⟩ := found
    obtain ⟨hin, hw⟩ := lookupManager_some hm
    obtain ⟨a, ho', hpr, ⟨proof, -, -, -, hv⟩, ht⟩ := hfo _ _ hin
    obtain rfl : manager = a.manager := Option.some_inj.mp (hw.symm.trans ho')
    refine .inl ⟨a, rfl, hpr, ht.mem, ?_⟩
    cases hb : a.pairedBy with
    | manager => exact .inl ⟨rfl, ht⟩
    | processor =>
      rw [Accepted.signer, hb] at hv
      exact .inr ⟨rfl, proof.timestamp, hunforgeable _ _ _ hv⟩
  | none =>
    rw [hm] at hother
    cases hc : pairingForCall tx.call with
    | none =>
      rw [hc] at hother
      exact absurd rfl hother
    | some brought =>
      obtain ⟨pairing, isMulti, attestationChain⟩ := brought
      obtain ⟨counter, ha⟩ := onboardingValidate_pairing hva hc
      obtain ⟨⟨proof, ho, -, -, hv⟩, -⟩ := doValidatePairing_ok ha tx.signer
      exact .inr ⟨pairing, isMulti, attestationChain, counter, proof, hc, rfl, ha, ho,
        hunforgeable _ _ _ hv⟩

def SignedInMock (account : ℕ) (m : Bytes) : Prop := ∃ signature, mock.verify signature m account = true

def heartbeatOfFive : Transaction mock :=
  ⟨5, .processorManager (.heartbeatWithVersion ⟨0, 0⟩), 10, 10⟩

theorem fee_payer_consents_heartbeatOfFive : ∃ info : LiquidityInfo ℕ, info.feePayer = 1 ∧
      (Consents SignedInMock allPaired info.feePayer heartbeatOfFive.signer ∨
        Brings SignedInMock allPaired heartbeatOfFive.call info.feePayer) := by
  have hh : ((chargeTransaction allPaired heartbeatOfFive).toOption.map (·.2)) =
      some (some ⟨10, 1⟩) := by
    decide +kernel
  obtain ⟨⟨s', info⟩, ho, hn⟩ := Option.map_eq_some_iff.mp hh
  obtain rfl : info = some ⟨10, 1⟩ := hn
  have hc := toOption_eq_some.mp ho
  have ht : (⟨10, 1⟩ : LiquidityInfo ℕ).feePayer ≠ heartbeatOfFive.signer := by decide
  have hs : ∀ signature m account, mock.verify signature m account = true →
      SignedInMock account m := fun signature m account h => ⟨signature, h⟩
  have hco := fee_payer_consents hs () funds pairings rfl hc ht
  exact ⟨⟨10, 1⟩, rfl, hco⟩

end Acurast.ProcessorManager
