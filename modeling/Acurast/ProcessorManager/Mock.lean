import Acurast.ProcessorManager.Transaction

/-! A runtime over numbered accounts in which nothing outside the pallet happens. -/

namespace Acurast.ProcessorManager

open Base

def mock : Config ℕ where
  Signature := Bytes × ℕ
  verify := fun signature message account => decide (signature = (message, account))
  encodeAccount := fun a => littleEndian 4 a
  pairingProofExpirationTime := 600000
  updateOrigin := fun origin => decide (origin = .root)
  Address := ℕ
  lookup := some
  existentialDeposit := 1
  maxConsumers := 16
  World := Unit
  AttestationChain := Unit
  validateAttestation := fun _ _ _ => true
  storeAttestation := fun w _ _ => w
  ensureAttested := fun _ _ => true
  Metrics := Unit
  noMetrics := ()
  commit := fun w accounts _ _ _ => (w, accounts)
  Advertisement := Unit
  advertise := fun w accounts _ _ => some (w, accounts)
  OtherCall := Unit
  isFundableOther := fun _ => false
  dispatchOther := fun w accounts _ _ => some (w, accounts)

theorem mock_verify {sig : Bytes × ℕ} {m : Bytes} {a : ℕ} :
    mock.verify sig m a = true ↔ sig = (m, a) :=
  decide_eq_true_iff

def funds : Ledger ℕ 1 16 := fun a => Account.plain (if a = 1 ∨ a = 2 then 1000 else 0)

def singleProof (signer manager : ℕ) (counter : Counter) : ProcessorPairing ℕ mock.Signature :=
  ⟨signer, some ⟨100, message mock manager 100 counter, signer⟩⟩

def multiProof (manager : ℕ) : ProcessorPairing ℕ mock.Signature :=
  ⟨manager, some ⟨100, multiMessage mock manager 100, manager⟩⟩

/-- The manager 1 adds the processor 5 and removes it again; the processors 6, 7 and 8 bring its
proofs, the last one with an attestation funded by the account 2. -/
def pairings : List (Op mock) :=
  [.pass 200, .dispatch .root (.updateOnboardingSettings (some ⟨50, 100, 2⟩)),
    .dispatch (.signed 1) (.updateProcessorPairings
      [⟨.add, singleProof 5 1 1⟩, ⟨.remove, ⟨5, none⟩⟩, ⟨.add, singleProof 5 1 2⟩]),
    .transaction ⟨6, .processorManager (.pairWithManager (singleProof 1 1 3)), 10, 10⟩,
    .transaction ⟨7, .processorManager (.multiPairWithManager (multiProof 1)), 10, 10⟩,
    .transaction ⟨8, .processorManager (.onboard (multiProof 1) true ()), 10, 10⟩]

def allPaired : State mock := run step (State.genesis mock () funds) pairings

end Acurast.ProcessorManager
